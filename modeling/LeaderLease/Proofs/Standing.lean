import LeaderLease.Proofs.Chronicle

/-!
# The standing of a run towards the records of its lease

`Run.Stands` says how one run of a contest on punctual time stands to what was stored under its key.
While it keeps the lease, the last record is its own and not older than two retry periods, so no
other run that has seen that record takes it for one that has run out. An attempt is known by the
reading of the wall clock with which it began: no record bears it yet. There is one lemma for each
kind of step, and `Run.Stands.excludes` draws the conclusion for two runs.
-/

set_option autoImplicit false

namespace LeaderLease

namespace Stage

/-- The reading of the wall clock with which the attempt under way began. -/
def wall? : Stage → Option Timestamp
  | .reading _ wall => some wall
  | .writing _ w => some w.lease.renewed
  | _ => none

/-- From winning the lease to handing it back. -/
def keepsLease : Stage → Bool
  | .elected | .installing | .relieving _ | .aborting | .releasing _ _ _ => true
  | .waiting goal | .reading goal _ | .writing goal _ => goal.isRenewal
  | _ => false

end Stage

/-- A candidate under which exclusion is claimed: it has a name, and its lease lasts longer than two
retry periods. -/
structure Candidate.Admissible (c : Candidate) : Prop where
  named : c.identity ≠ ""
  ticking : 0 < c.retryPeriod.nanos
  lasting : 2 * c.retryPeriod.nanos < c.ttl.nanos

instance (c : Candidate) : Decidable c.Admissible :=
  decidable_of_iff
    (c.identity ≠ "" ∧ 0 < c.retryPeriod.nanos ∧ 2 * c.retryPeriod.nanos < c.ttl.nanos)
    ⟨fun ⟨named, ticking, lasting⟩ => ⟨named, ticking, lasting⟩,
      fun ⟨named, ticking, lasting⟩ => ⟨named, ticking, lasting⟩⟩

/-- The stages of a run that keeps its lease, since its last write. -/
def Timely (c : Candidate) (now since : Instant) : Stage → Prop
  | .elected | .installing => now ≤ since
  | .waiting (.lead ticker _) =>
    now ≤ ticker.due ∧ ticker.due ≤ since + c.retryPeriod.nanos ∧ ticker.period = c.retryPeriod
  | .reading (.lead ticker _) _ | .writing (.lead ticker _) _ =>
    now ≤ since + c.retryPeriod.nanos ∧
      ticker = ⟨now + c.retryPeriod.nanos, c.retryPeriod⟩
  | .relieving .requested => now ≤ since + c.retryPeriod.nanos
  | .waiting (.windDown ticker _) =>
    now ≤ ticker.due ∧ ticker.due ≤ since + 2 * c.retryPeriod.nanos ∧
      ticker.period = c.retryPeriod
  | .reading (.windDown ticker _) _ | .writing (.windDown ticker _) _ =>
    now ≤ since + 2 * c.retryPeriod.nanos ∧
      ticker = ⟨now + c.retryPeriod.nanos, c.retryPeriod⟩
  | .relieving (.workEnded _) | .releasing _ _ _ => now ≤ since + 2 * c.retryPeriod.nanos
  | .relieving .lost | .aborting => False
  | _ => True

namespace Run

/-- The last record is the one that the run has seen since it stored it. -/
def Holds (r : Run) (records : List Record) : Prop :=
  ∃ x, records.getLast? = some x ∧ r.sighting.seen = some x.entry ∧ x.time = r.sighting.since ∧
    x.entry.lease.holder = r.candidate.identity ∧ x.entry.lease.duration = r.candidate.ttl

/-- How a run stands to the records of its key, and to the readings of the wall clock that were
taken, each with the identity that took it. -/
structure Stands (r : Run) (now : Instant) (records : List Record)
    (taken : List (String × Timestamp)) : Prop where
  admissible : r.candidate.Admissible
  /-- No record bears the reading of the attempt under way. -/
  unborne : ∀ wall, r.stage.wall? = some wall → (r.candidate.identity, wall) ∈ taken ∧
    ∀ x ∈ records, x.entry.lease.holder = r.candidate.identity → x.entry.lease.renewed ≠ wall
  /-- Only a run that acquires creates a lease. -/
  creates : ∀ goal l, r.stage = .writing goal (.create l) → goal.isRenewal = false
  /-- Somebody else's lease is taken over only after its duration. -/
  waited : ∀ goal version l e, r.stage = .writing goal (.update version l) →
    r.sighting.seen = some e → e.lease.holder ≠ "" → e.lease.holder ≠ r.candidate.identity →
      r.sighting.since + e.lease.duration.nanos ≤ now
  /-- A lease counts as unchanged only since after it was stored. -/
  since : ∀ e, r.sighting.seen = some e → e.lease.holder ≠ "" → ∀ x ∈ records,
    x.entry.lease = e.lease → x.time ≤ r.sighting.since
  holds : r.stage.keepsLease = true → r.Holds records
  timely : Timely r.candidate now r.sighting.since r.stage

end Run

theorem Run.stage_of_hasEnded {r : Run} (ended : r.hasEnded = true) :
    (∃ outcome, r.stage = .ended outcome) ∨ r.stage = .broken := by
  cases stage : r.stage with
  | ended outcome => exact Or.inl ⟨outcome, rfl⟩
  | broken => exact Or.inr rfl
  | _ => simp [Run.hasEnded, stage] at ended

theorem Run.keepsLease_of_hasEnded {r : Run} (ended : r.hasEnded = true) :
    r.stage.keepsLease = false := by
  rcases Run.stage_of_hasEnded ended with ⟨outcome, stage⟩ | stage <;> rw [stage] <;> rfl

/-- Whoever keeps the lease has renewed it within two retry periods. -/
theorem Timely.recent {c : Candidate} {now since : Instant} {stage : Stage}
    (timely : Timely c now since stage) (keeps : stage.keepsLease = true) :
    now ≤ since + 2 * c.retryPeriod.nanos := by
  cases stage with
  | elected | installing =>
      have atOnce : now ≤ since := timely
      lia
  | waiting goal =>
      cases goal with
      | acquire ticker => cases keeps
      | lead ticker renewedAt | windDown ticker renewedAt =>
          obtain ⟨early, due, -⟩ := timely
          lia
  | reading goal _ | writing goal _ =>
      cases goal with
      | acquire ticker => cases keeps
      | lead ticker renewedAt | windDown ticker renewedAt =>
          have early := timely.1
          lia
  | relieving reason =>
      cases reason with
      | requested =>
          have early : now ≤ since + c.retryPeriod.nanos := timely
          lia
      | lost => exact False.elim timely
      | workEnded result => exact timely
  | aborting => exact False.elim timely
  | releasing verdict version lease => exact timely
  | _ => cases keeps

theorem timely_of_not_keepsLease {c : Candidate} {now since : Instant} {stage : Stage}
    (off : stage.keepsLease = false) : Timely c now since stage := by
  cases stage with
  | waiting goal | reading goal _ | writing goal _ =>
      cases goal with
      | acquire ticker => trivial
      | lead ticker renewedAt | windDown ticker renewedAt => cases off
  | elected | installing | relieving | aborting | releasing => cases off
  | _ => trivial

/-- Every lease that somebody held bears a reading that was taken. -/
def Signed (records : List Record) (taken : List (String × Timestamp)) : Prop :=
  ∀ x ∈ records, x.entry.lease.holder ≠ "" →
    (x.entry.lease.holder, x.entry.lease.renewed) ∈ taken

namespace Run.Stands

variable {r next : Run} {now : Instant} {records : List Record}
  {taken taken' : List (String × Timestamp)}

/-- A run about to write over the last record leaves nobody who keeps the lease. -/
theorem excludes {s : Run} {w : Write} (stands : r.Stands now records taken)
    (recalls : r.Recalls records) (other : s.Stands now records taken)
    (numbered : Numbered records) (apart : r.candidate.identity ≠ s.candidate.identity)
    (called : r.call? = some (.write w))
    (current : ∀ x ∈ records, x.entry.version = records.length →
      w = .update x.entry.version w.lease) : s.stage.keepsLease = false := by
  refine Bool.eq_false_iff.mpr fun keeps => ?_
  obtain ⟨x, last, seen, time, holder, duration⟩ := other.holds keeps
  have member := List.mem_of_getLast? last
  have replaced := current x member (numbered.last_version last)
  rcases stage_of_write called with ⟨goal, stage⟩ | ⟨verdict, version, lease, stage, same⟩
  · rw [replaced] at stage
    obtain ⟨e, wall, saw, version, -⟩ := plans_of_update recalls.plans stage
    have sameEntry := recalls.entry_of_version numbered saw member version.symm
    subst sameEntry
    -- It has seen the record since it was stored, and waited for its duration.
    have held : x.entry.lease.holder ≠ "" := holder ▸ other.admissible.named
    have foreign : x.entry.lease.holder ≠ r.candidate.identity := holder ▸ apart.symm
    have waited := stands.waited goal _ _ _ stage saw held foreign
    have since := stands.since _ saw held x member rfl
    have recent := other.timely.recent keeps
    have lasting := other.admissible.lasting
    rw [duration] at waited
    lia
  · obtain ⟨e, wall, saw, version', mine, -⟩ := plans_of_releasing recalls.plans stage
    have atVersion : version = x.entry.version := (Write.update.inj (same.symm.trans replaced)).1
    rw [← recalls.entry_of_version numbered saw member (by rw [version', atVersion])] at mine
    exact apart (((Lease.isHeldBy_iff _ _).mp mine).1.symm.trans holder)

theorem of_idle (admissible : r.candidate.Admissible) (idle : r.stage.wall? = none)
    (since : ∀ e, r.sighting.seen = some e → e.lease.holder ≠ "" → ∀ x ∈ records,
      x.entry.lease = e.lease → x.time ≤ r.sighting.since)
    (holds : r.stage.keepsLease = true → r.Holds records)
    (timely : Timely r.candidate now r.sighting.since r.stage) : r.Stands now records taken where
  admissible := admissible
  unborne := by
    intro wall trying
    cases idle.symm.trans trying
  creates := by
    intro goal l writing
    rw [writing] at idle
    cases idle
  waited := by
    intro goal version l e writing
    rw [writing] at idle
    cases idle
  since := since
  holds := holds
  timely := timely

theorem goTo {stage : Stage} (stands : r.Stands now records taken) (idle : stage.wall? = none)
    (keeps : stage.keepsLease = true → r.stage.keepsLease = true)
    (timely : Timely r.candidate now r.sighting.since stage) :
    (r.goTo stage).Stands now records taken' :=
  of_idle stands.admissible idle stands.since (fun holding => stands.holds (keeps holding)) timely

theorem handBack (stands : r.Stands now records taken) (wall : Timestamp) (verdict : Verdict)
    (keeps : r.stage.keepsLease = true)
    (recent : now ≤ r.sighting.since + 2 * r.candidate.retryPeriod.nanos) :
    (r.handBack wall verdict).Stands now records taken' := by
  rcases handBack_cases r wall verdict with same | ⟨e, seen, mine, same⟩ <;> rw [same]
  · exact stands.goTo rfl (fun off => by cases off) trivial
  · exact stands.goTo rfl (fun _ => keeps) recent

/-- A tick starts an attempt, with a reading of the wall clock that was not taken before. -/
theorem attempt {goal : Goal} {wall : Timestamp} (stands : r.Stands now records taken)
    (signed : Signed records taken) (stage : r.stage = .waiting goal)
    (due : goal.ticker.due ≤ now) (unread : (r.candidate.identity, wall) ∉ taken)
    (read : (r.candidate.identity, wall) ∈ taken') :
    (r.goTo (.reading (goal.ticked now) wall)).Stands now records taken' where
  admissible := stands.admissible
  unborne := by
    intro wall' trying
    cases Option.some.inj trying
    refine ⟨read, fun x member holder same => unread ?_⟩
    have taken := signed x member (holder ▸ stands.admissible.named)
    rwa [holder, same] at taken
  creates := fun goal l writing => by cases writing
  waited := fun goal version l e writing => by cases writing
  since := stands.since
  holds := by
    intro keeps
    have renewal : (goal.ticked now).isRenewal = true := keeps
    rw [Goal.isRenewal_ticked] at renewal
    refine stands.holds ?_
    rw [stage]
    exact renewal
  timely := by
    have timely := stands.timely
    rw [stage] at timely
    cases goal with
    | acquire ticker => trivial
    | lead ticker renewedAt | windDown ticker renewedAt =>
        obtain ⟨early, recent, period⟩ := timely
        have onTime : ticker.due = now := Nat.le_antisymm due early
        refine ⟨Nat.le_trans early recent, ?_⟩
        rw [Ticker.taken_onTime onTime, period]
        rfl

theorem act {v : View} {effects : List Effect} (acts : r.Acts v next effects)
    (stands : r.Stands v.now records taken) (signed : Signed records taken)
    (readings : ∀ wall, next.stage.wall? = some wall →
      (r.candidate.identity, wall) ∉ taken ∧ (r.candidate.identity, wall) ∈ taken') :
    next.Stands v.now records taken' := by
  have timely := stands.timely
  cases acts with
  | attempt stage free due =>
      obtain ⟨unread, read⟩ := readings v.wall rfl
      exact stands.attempt signed stage due unread read
  | refuse | begin | withdraw | installLate | lingerLate | abort | retire | closeFailed
  | closeAsked | closeLost | announce => exact stands.goTo rfl (fun off => by cases off) trivial
  | heed stage asked =>
      rw [stage] at timely
      obtain ⟨early, recent, -⟩ := timely
      exact stands.goTo rfl (fun _ => by rw [stage]; rfl) (Nat.le_trans early recent)
  | notice stage =>
      rw [stage] at timely
      obtain ⟨early, recent, -⟩ := timely
      refine stands.goTo rfl (fun _ => by rw [stage]; rfl) ?_
      have soon : v.now ≤ r.sighting.since + 2 * r.candidate.retryPeriod.nanos := by lia
      exact soon
  | finish stage =>
      have keeps : r.stage.keepsLease = true := by rw [stage]; rfl
      exact stands.handBack _ _ keeps (timely.recent keeps)
  | proclaim stage =>
      rw [stage] at timely
      exact stands.goTo rfl (fun _ => by rw [stage]; rfl) timely
  | install stage made =>
      rw [stage] at timely
      obtain ⟨due, shown, rfl⟩ := Option.map_eq_some_iff.mp made
      rw [Instant.after?_eq_some shown]
      refine stands.goTo rfl (fun _ => by rw [stage]; rfl) ⟨Nat.le_add_right _ _, ?_, rfl⟩
      exact Nat.add_le_add_right timely _
  | linger stage made =>
      rw [stage] at timely
      obtain ⟨due, shown, rfl⟩ := Option.map_eq_some_iff.mp made
      rw [Instant.after?_eq_some shown]
      refine stands.goTo rfl (fun _ => by rw [stage]; rfl) ⟨Nat.le_add_right _ _, ?_, rfl⟩
      have recent : v.now ≤ r.sighting.since + r.candidate.retryPeriod.nanos := timely
      show v.now + r.candidate.retryPeriod.nanos ≤ _
      lia
  | dismiss stage =>
      rw [stage] at timely
      exact False.elim timely
  | conclude stage =>
      have keeps : r.stage.keepsLease = true := by rw [stage]; rfl
      exact stands.handBack _ _ keeps (timely.recent keeps)

theorem since_observe {e : Entry} (stands : r.Stands now records taken)
    (past : ∀ x ∈ records, x.time ≤ now) (held : e.lease.holder ≠ "") :
    ∀ x ∈ records, x.entry.lease = e.lease → x.time ≤ (r.sighting.observe now e).since := by
  intro x member same
  simp only [Sighting.observe]
  split
  · rename_i unchanged
    obtain ⟨e', seen, sameLease⟩ := Option.map_eq_some_iff.mp unchanged
    exact stands.since e' seen (sameLease ▸ held) x member (same.trans sameLease.symm)
  · exact past x member

theorem observe_of_holds {found : Option Entry} (holds : r.Holds records)
    (current : found = records.getLast?.map (·.entry)) :
    ∃ e, found = some e ∧ e.lease.holder = r.candidate.identity ∧
      (r.sighting.observe now e).since = r.sighting.since ∧
      ((r.observe now e).1).Holds records := by
  obtain ⟨x, last, seen, time, holder, duration⟩ := holds
  have same : (r.sighting.observe now x.entry).since = r.sighting.since := by
    simp only [Sighting.observe, seen, Option.map_some, if_true]
  refine ⟨x.entry, by rw [current, last]; rfl, holder, same, x, last, rfl, ?_, holder, duration⟩
  exact time.trans same.symm

/-- The answer to a read either shows whoever keeps the lease its own record, or finds the run
acquiring. -/
theorem renewal_or_acquire {goal : Goal} {wall : Timestamp} {found : Option Entry}
    (stands : r.Stands now records taken) (stage : r.stage = .reading goal wall)
    (current : found = records.getLast?.map (·.entry)) :
    (∃ e, found = some e ∧ e.lease.holder = r.candidate.identity ∧
      (r.sighting.observe now e).since = r.sighting.since ∧
      ((r.observe now e).1).Holds records) ∨ ∃ ticker, goal = .acquire ticker := by
  cases goal with
  | acquire ticker => exact Or.inr ⟨ticker, rfl⟩
  | lead ticker renewedAt | windDown ticker renewedAt =>
      exact Or.inl (observe_of_holds (stands.holds (by rw [stage]; rfl)) current)

theorem plan {goal : Goal} {wall : Timestamp} {e : Entry} {l : Lease}
    (stands : r.Stands now records taken) (stage : r.stage = .reading goal wall)
    (past : ∀ x ∈ records, x.time ≤ now) (renewed : l.renewed = wall)
    (waited : e.lease.holder ≠ "" → e.lease.holder ≠ r.candidate.identity →
      (r.sighting.observe now e).since + e.lease.duration.nanos ≤ now)
    (holds : goal.isRenewal = true → ((r.observe now e).1).Holds records ∧
      (r.sighting.observe now e).since = r.sighting.since) :
    ((r.observe now e).1.goTo (.writing goal (.update e.version l))).Stands now records taken where
  admissible := stands.admissible
  unborne := by
    intro wall' trying
    have same : l.renewed = wall' := Option.some.inj trying
    refine stands.unborne wall' ?_
    rw [stage, ← same, renewed]
    rfl
  creates := fun goal l writing => by cases writing
  waited := by
    intro goal' version' l' e' writing seen held foreign
    cases Option.some.inj seen
    exact waited held foreign
  since := by
    intro e' seen held
    cases Option.some.inj seen
    exact stands.since_observe past held
  holds := fun keeps => (holds keeps).1
  timely := by
    have timely := stands.timely
    rw [stage] at timely
    cases goal with
    | acquire ticker => trivial
    | lead ticker renewedAt | windDown ticker renewedAt =>
        have same := (holds rfl).2
        rw [← same] at timely
        exact timely

theorem off {e : Entry} {stage : Stage} (stands : r.Stands now records taken)
    (past : ∀ x ∈ records, x.time ≤ now) (idle : stage.wall? = none)
    (released : stage.keepsLease = false) :
    ((r.observe now e).1.goTo stage).Stands now records taken := by
  refine of_idle stands.admissible idle ?_ ?_ (timely_of_not_keepsLease released)
  · intro e' seen held
    cases Option.some.inj seen
    exact stands.since_observe past held
  · intro keeps
    cases released.symm.trans keeps

theorem read {goal : Goal} {wall : Timestamp} {found : Option Entry} {effects : List Effect}
    (reads : r.Reads now goal wall (.ok found) next effects)
    (stands : r.Stands now records taken) (stage : r.stage = .reading goal wall)
    (past : ∀ x ∈ records, x.time ≤ now) (current : found = records.getLast?.map (·.entry)) :
    next.Stands now records taken := by
  have known := stands.renewal_or_acquire stage current
  cases reads with
  | absent =>
      obtain ⟨e, saw, -⟩ | ⟨ticker, rfl⟩ := known
      · cases saw
      · exact {
          admissible := stands.admissible
          unborne := by
            intro wall' trying
            cases Option.some.inj trying
            exact stands.unborne wall (by rw [stage]; rfl)
          creates := by
            intro goal l writing
            cases writing
            rfl
          waited := fun goal version l e writing => by cases writing
          since := stands.since
          holds := fun keeps => by cases keeps
          timely := trivial }
  | held e other =>
      obtain ⟨e', saw, mine, -⟩ | ⟨ticker, rfl⟩ := known
      · cases Option.some.inj saw
        exact absurd mine other.2
      · exact stands.off past rfl rfl
  | own e mine =>
      have holder := ((Lease.isHeldBy_iff _ _).mp mine).1
      refine stands.plan stage past rfl (fun _ foreign => absurd holder foreign) fun renewal => ?_
      obtain ⟨e', saw, -, since, holds⟩ | ⟨ticker, rfl⟩ := known
      · cases Option.some.inj saw
        exact ⟨holds, since⟩
      · cases renewal
  | free e notMine spent next =>
      refine stands.plan stage past rfl spent fun renewal => ?_
      obtain ⟨e', saw, holder, -⟩ | ⟨ticker, rfl⟩ := known
      · cases Option.some.inj saw
        have mine := (Lease.isHeldBy_iff _ _).mpr ⟨holder, stands.admissible.named⟩
        cases notMine.symm.trans mine
      · cases renewal
  | overflow e => exact stands.off past rfl rfl

/-- Somebody else stores a record while the run does not keep the lease. -/
theorem other {z : Record} (stands : r.Stands now records taken)
    (recalls : r.Recalls records) (released : r.stage.keepsLease = false)
    (foreign : ∀ wall, r.stage.wall? = some wall → z.entry.lease.holder ≠ r.candidate.identity)
    (new : z.entry.lease.holder ≠ "" → ∀ x ∈ records, x.entry.lease ≠ z.entry.lease) :
    r.Stands now (records ++ [z]) taken where
  admissible := stands.admissible
  unborne := by
    intro wall trying
    obtain ⟨read, unborne⟩ := stands.unborne wall trying
    refine ⟨read, fun x member holder => ?_⟩
    rcases List.mem_append.mp member with member | member
    · exact unborne x member holder
    · cases List.mem_singleton.mp member
      exact absurd holder (foreign wall trying)
  creates := stands.creates
  waited := stands.waited
  since := by
    intro e seen held x member same
    rcases List.mem_append.mp member with member | member
    · exact stands.since e seen held x member same
    · cases List.mem_singleton.mp member
      -- What the run has seen was stored before.
      obtain ⟨y, stored, sameEntry⟩ := recalls.seen e seen
      refine absurd ?_ (new (same ▸ held) y stored)
      rw [sameEntry, same]
  holds := by
    intro keeps
    cases released.symm.trans keeps
  timely := timely_of_not_keepsLease released

theorem new_lease {goal : Goal} {w : Write} (stands : r.Stands now records taken)
    (recalls : r.Recalls records) (stage : r.stage = .writing goal w) :
    ∀ x ∈ records, x.entry.lease ≠ w.lease := by
  intro x member same
  obtain ⟨-, unborne⟩ := stands.unborne w.lease.renewed (by rw [stage]; rfl)
  have holder := Run.holder_of_plans recalls.plans stage
  exact unborne x member (same ▸ holder) (by rw [same])

/-- What a run writes is held by nobody, or names the run, bears the reading of its attempt, and is
new. -/
theorem bears {w : Write} (stands : r.Stands now records taken) (recalls : r.Recalls records)
    (called : r.call? = some (.write w)) :
    w.lease.holder = "" ∨ w.lease.holder = r.candidate.identity ∧
      (r.candidate.identity, w.lease.renewed) ∈ taken ∧
        ∀ x ∈ records, x.entry.lease ≠ w.lease := by
  rcases stage_of_write called with ⟨goal, stage⟩ | ⟨verdict, version, lease, stage, rfl⟩
  · obtain ⟨read, -⟩ := stands.unborne w.lease.renewed (by rw [stage]; rfl)
    exact Or.inr ⟨Run.holder_of_plans recalls.plans stage, read, stands.new_lease recalls stage⟩
  · obtain ⟨e, wall, -, -, -, rfl⟩ := plans_of_releasing recalls.plans stage
    exact Or.inl rfl

theorem succeeded {id : Nat} {goal : Goal} {w : Write} {e : Entry}
    (stands : r.Stands now records taken) (recalls : r.Recalls records)
    (stage : r.stage = .writing goal w) (stored : e.lease = w.lease) :
    ((r.observe now e).1.succeeded now goal).Stands now (records ++ [⟨some id, now, e⟩]) taken := by
  have new := stands.new_lease recalls stage
  have since : (r.sighting.observe now e).since = now := by
    refine if_neg fun unchanged => ?_
    obtain ⟨e', seen, sameLease⟩ := Option.map_eq_some_iff.mp unchanged
    obtain ⟨x, member, rfl⟩ := recalls.seen e' seen
    exact new x member (sameLease.trans stored)
  have holder := Run.holder_of_plans recalls.plans stage
  have duration := Run.duration_of_plans recalls.plans stage
  rw [← stored] at holder duration
  have sighting := succeeded_sighting (r.observe now e).1 now goal
  have idle : ((r.observe now e).1.succeeded now goal).stage.wall? = none := by
    cases goal <;> rfl
  have candidate := succeeded_candidate (r.observe now e).1 now goal
  refine of_idle (candidate ▸ stands.admissible) idle ?_ ?_ ?_
  · rw [sighting]
    intro e' seen held x member same
    cases Option.some.inj seen
    refine Nat.le_trans ?_ (Nat.le_of_eq since.symm)
    rcases List.mem_append.mp member with member | member
    · exact absurd (same.trans stored) (new x member)
    · cases List.mem_singleton.mp member
      exact Nat.le_refl now
  · intro keeps
    refine ⟨_, List.getLast?_concat, ?_, ?_, ?_, ?_⟩
    · rw [sighting]
      rfl
    · rw [sighting]
      exact since.symm
    · rw [candidate]
      exact holder
    · rw [candidate]
      exact duration
  · rw [sighting, candidate]
    have timely := stands.timely
    rw [stage] at timely
    have latest : (r.observe now e).1.sighting.since = now := since
    rw [latest]
    cases goal with
    | acquire ticker => exact Nat.le_refl now
    | lead ticker renewedAt =>
        obtain ⟨-, rfl⟩ := timely
        exact ⟨Nat.le_add_right _ _, Nat.le_refl _, rfl⟩
    | windDown ticker renewedAt =>
        obtain ⟨-, rfl⟩ := timely
        refine ⟨Nat.le_add_right _ _, ?_, rfl⟩
        exact Nat.add_le_add_left (Nat.le_mul_of_pos_left _ Nat.zero_lt_two) now

theorem updates {w : Write} (stands : r.Stands now records taken) (recalls : r.Recalls records)
    (called : r.call? = some (.write w)) (keeps : r.stage.keepsLease = true) :
    ∃ x, records.getLast? = some x ∧ w = .update x.entry.version w.lease := by
  obtain ⟨x, last, seen, -⟩ := stands.holds keeps
  refine ⟨x, last, ?_⟩
  rcases stage_of_write called with ⟨goal, stage⟩ | ⟨verdict, version, lease, stage, rfl⟩
  · cases w with
    | create l =>
        have acquires := stands.creates goal l stage
        rw [stage] at keeps
        cases acquires.symm.trans keeps
    | update version l =>
        obtain ⟨e, wall, saw, rfl, -⟩ := plans_of_update recalls.plans stage
        rw [Option.some.inj (seen.symm.trans saw)]
        rfl
  · obtain ⟨e, wall, saw, rfl, -⟩ := plans_of_releasing recalls.plans stage
    rw [Option.some.inj (seen.symm.trans saw)]
    rfl

theorem written {id : Nat} {w : Write} {e : Entry} {effects : List Effect}
    (writes : r.Writes now (.ok e) next effects) (stands : r.Stands now records taken)
    (recalls : r.Recalls records) (called : r.call? = some (.write w))
    (stored : e.lease = w.lease) :
    next.Stands now (records ++ [⟨some id, now, e⟩]) taken := by
  rcases stage_of_write called with ⟨goal, stage⟩ | ⟨verdict, version, lease, stage, rfl⟩
  · cases writes with
    | succeeded _ attempt =>
        obtain ⟨rfl, rfl⟩ := Stage.writing.inj (stage.symm.trans attempt)
        exact stands.succeeded recalls stage stored
    | released _ handed => cases stage.symm.trans handed
  · cases writes with
    | succeeded _ attempt => cases stage.symm.trans attempt
    | released _ handed =>
        -- Nobody holds the lease that was handed back.
        obtain ⟨e', wall, -, -, -, rfl⟩ := plans_of_releasing recalls.plans stage
        refine of_idle stands.admissible rfl ?_ (fun keeps => by cases keeps) trivial
        intro e'' seen held
        cases Option.some.inj seen
        rw [stored] at held
        exact absurd rfl held

/-- The answer to a write that stored nothing; it ends a run that keeps the lease. -/
theorem unwritten {err : StoreError} {effects : List Effect}
    (writes : r.Writes now (.error err) next effects) (stands : r.Stands now records taken)
    (exhausted : r.stage.keepsLease = true → err = .exhausted) :
    next.Stands now records taken := by
  cases writes with
  | @failed goal w _ stage inRange =>
      cases goal with
      | acquire ticker => exact stands.goTo rfl (fun off => by cases off) trivial
      | lead ticker renewedAt | windDown ticker renewedAt =>
          exact absurd (exhausted (by rw [stage]; rfl)) inRange
  | kept stage inRange => exact stands.goTo rfl (fun off => by cases off) trivial
  | exhausted => exact stands.goTo rfl (fun off => by cases off) trivial

theorem wait {later : Instant} (stands : r.Stands now records taken) (passed : now ≤ later)
    (idle : (∃ goal, r.stage = .waiting goal ∧ later ≤ goal.ticker.due) ∨ r.hasEnded = true) :
    r.Stands later records taken where
  admissible := stands.admissible
  unborne := stands.unborne
  creates := stands.creates
  waited := by
    intro goal version l e writing seen held foreign
    exact Nat.le_trans (stands.waited goal version l e writing seen held foreign) passed
  since := stands.since
  holds := stands.holds
  timely := by
    have timely := stands.timely
    rcases idle with ⟨goal, stage, early⟩ | ended
    · rw [stage] at timely ⊢
      cases goal with
      | acquire ticker => trivial
      | lead ticker renewedAt | windDown ticker renewedAt => exact ⟨early, timely.2⟩
    · exact timely_of_not_keepsLease (keepsLease_of_hasEnded ended)

theorem start (candidate : Candidate) (admissible : candidate.Admissible) :
    (Run.start candidate now).Stands now records taken :=
  of_idle admissible rfl (fun e seen => by cases seen) (fun keeps => by cases keeps) trivial

theorem mono (stands : r.Stands now records taken)
    (grown : ∀ reading ∈ taken, reading ∈ taken') : r.Stands now records taken' where
  admissible := stands.admissible
  unborne := by
    intro wall trying
    obtain ⟨read, unborne⟩ := stands.unborne wall trying
    exact ⟨grown _ read, unborne⟩
  creates := stands.creates
  waited := stands.waited
  since := stands.since
  holds := stands.holds
  timely := stands.timely

end Run.Stands

end LeaderLease
