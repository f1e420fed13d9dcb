import LeaderLease.Proofs.Stall
import LeaderLease.Proofs.Work

/-!
# How long a leader works without renewing

A leader is patient with failing renewals up to the first tick that the renew deadline does not
cover, and a request to stop gives the wind-down the same patience again. So the age of the last
write while the work runs is bounded by the deadline and one retry period if no request is heeded
after it; with a request, the bound holds exactly when the age at the request and a whole patience
fit into it.
-/

set_option autoImplicit false

namespace LeaderLease

/-! ## The age of the last write -/

namespace Tenure

/-- The lease was written at most so long ago. -/
def WrittenWithin (t : Tenure) (bound : Nat) (now : Instant) : Prop :=
  ∃ written, t.written = some written ∧ now ≤ written + bound

/-- No request was heeded later than an allowance after the last write. -/
def HeededWithin (t : Tenure) (allowance : Nat) : Prop :=
  ∀ written, t.written = some written → ∀ heed ∈ t.heeded, heed ≤ written + allowance

theorem Aged.writtenWithin {c : Candidate} {t : Tenure} {now : Instant} {allowance : Nat}
    (aged : t.Aged c now) (heeded : t.HeededWithin allowance) :
    t.WrittenWithin (min allowance c.patience + c.patience) now := by
  obtain ⟨written, wrote, early | ⟨heed, member, soon, early⟩⟩ := aged
  · exact ⟨written, wrote, by lia⟩
  · have allowed := heeded written wrote heed member
    exact ⟨written, wrote, by lia⟩

theorem Aged.writtenWithin_twice {c : Candidate} {t : Tenure} {now : Instant}
    (aged : t.Aged c now) : t.WrittenWithin (c.patience + c.patience) now := by
  obtain ⟨written, wrote, early | ⟨heed, member, soon, early⟩⟩ := aged
  · exact ⟨written, wrote, by lia⟩
  · exact ⟨written, wrote, by lia⟩

theorem WrittenWithin.weaken {t : Tenure} {bound larger : Nat} {now : Instant}
    (within : t.WrittenWithin bound now) (le : bound ≤ larger) : t.WrittenWithin larger now := by
  obtain ⟨written, wrote, early⟩ := within
  exact ⟨written, wrote, Nat.le_trans early (Nat.add_le_add_left le _)⟩

end Tenure

theorem aged_of_paces {c : Candidate} {now : Instant} {t : Tenure} {stage : Stage}
    (paces : Paces c now t stage) (working : stage.mayWork = true) (whole : stage ≠ .broken) :
    t.Aged c now := by
  cases stage with
  | waiting goal =>
      cases goal with
      | acquire ticker => cases working
      | lead ticker renewedAt =>
          obtain ⟨beat, leads, waits⟩ := paces
          exact leads.aged waits.kept
      | windDown ticker renewedAt =>
          obtain ⟨beat, lingers, waits⟩ := paces
          exact lingers.aged waits.kept
  | reading goal _ | writing goal _ =>
      cases goal with
      | acquire ticker => cases working
      | lead ticker renewedAt => exact paces.1.aged paces.2.kept
      | windDown ticker renewedAt => exact paces.1.aged paces.2.kept
  | relieving reason =>
      cases reason with
      | requested => exact Tenure.Lingers.aged paces (Nat.le_add_right _ _)
      | lost => exact paces.2
      | workEnded result => cases working
  | aborting => exact paces.2
  | broken => exact absurd rfl whole
  | _ => cases working

theorem aged_of_reached {c : Contest} {id : Nat} {m : Member} (reached : c.Reached)
    (present : c.members.get? id = some m) (working : m.IsWorking) :
    (c.log.tenure id).Aged m.run.candidate c.now := by
  obtain ⟨moves, run⟩ := reached
  have career := Contest.career_of_punctualPlay run present
  exact aged_of_paces (paces_of_career career) (attends_of_career career working.1) working.2

/-! ## The worst case -/

/-- The ticks that patience covers: all but the last one leave the renewal young. -/
theorem patience_eq (c : Candidate) (ticking : 0 < c.retryPeriod.nanos) :
    ∃ count, c.patience = (count + 1) * c.retryPeriod.nanos ∧
      (count = 0 ∨ count * c.retryPeriod.nanos < c.renewDeadline.nanos) := by
  unfold Candidate.patience
  generalize c.renewDeadline.nanos = deadline
  generalize c.retryPeriod.nanos = period at ticking ⊢
  have whole : (deadline + period - 1) / period * period ≤ deadline + period - 1 :=
    Nat.div_mul_le_self _ _
  generalize (deadline + period - 1) / period = ticks at whole ⊢
  cases ticks with
  | zero => exact ⟨0, by simp, Or.inl rfl⟩
  | succ count =>
      refine ⟨count, ?_, Or.inr ?_⟩
      · rw [Nat.max_eq_right (Nat.succ_le_succ (Nat.zero_le count))]
      · rw [Nat.succ_mul] at whole
        omega

theorem ticks_before {period deadline count asked : Nat} (ticking : 0 < period)
    (young : count = 0 ∨ count * period < deadline) (patient : asked ≤ (count + 1) * period) :
    ∃ ticks, ticks * period ≤ asked ∧ asked ≤ ticks * period + period ∧
      (ticks = 0 ∨ ticks * period < deadline) := by
  refine ⟨(asked - 1) / period, ?_, ?_, ?_⟩
  · exact Nat.le_trans (Nat.div_mul_le_self _ _) (Nat.sub_le _ _)
  · have near := Nat.lt_div_mul_add (a := asked - 1) ticking
    omega
  · have fewer : (asked - 1) / period ≤ count := by
      refine Nat.le_of_lt_succ ((Nat.div_lt_iff_lt_mul ticking).mpr ?_)
      have some := Nat.mul_pos (Nat.succ_pos count) ticking
      rw [Nat.succ_eq_add_one] at some ⊢
      omega
    have before := Nat.mul_le_mul_right period fewer
    rcases young with rfl | young
    · exact Or.inl (Nat.le_zero.mp fewer)
    · exact Or.inr (Nat.lt_of_le_of_lt before young)

/-- A leader that cannot renew is asked to stop at some age within its patience, and works one more
patience. -/
theorem stalled_throughout (candidate : Candidate) (ticking : 0 < candidate.retryPeriod.nanos)
    (inRange : 2 * candidate.ttl.nanos + 5 * candidate.retryPeriod.nanos < Instant.limit)
    (asked : Nat) (patient : asked ≤ candidate.patience) :
    ∃ c m ticker due, Stalled candidate (.windDown ticker asked) due c m ∧
      c.now = asked + candidate.patience := by
  obtain ⟨count, lasts, young⟩ := patience_eq candidate ticking
  have short := candidate.patience_le
  have half : 2 * candidate.renewDeadline.nanos ≤ candidate.ttl.nanos :=
    Nat.mul_div_le candidate.ttl.nanos 2
  have rivalry : candidate.rival.duration.nanos =
      candidate.ttl.nanos + 3 * candidate.retryPeriod.nanos := rfl
  have split : (count + 1) * candidate.retryPeriod.nanos =
      count * candidate.retryPeriod.nanos + candidate.retryPeriod.nanos := Nat.succ_mul _ _
  obtain ⟨ticks, before, after, fresh⟩ := ticks_before ticking young (lasts ▸ patient)
  -- Leading, with ticks that fail up to the request.
  obtain ⟨first, m₁, stalled, atStart⟩ := stalled_start candidate ticking (by omega)
  have periodic : Stalled candidate (.lead ⟨0, candidate.retryPeriod⟩ 0)
      (first.now + candidate.retryPeriod.nanos) first m₁ := by
    rw [atStart, Nat.zero_add]
    exact stalled
  obtain ⟨ticked, m₂, stalled, tickedAt⟩ := stalled_cycles ticking ticks periodic
    (by simpa only [atStart, Nat.zero_add, Goal.renewedAt, Nat.sub_zero] using fresh)
    (by lia) (by lia)
  obtain ⟨waited, stalled, waitedUntil⟩ := stalled_pass stalled asked (by lia) (by lia) (by lia)
  -- The request, and ticks that fail up to the last one.
  obtain ⟨lingering, m₃, stalled, askedAt⟩ := stalled_asked stalled (by lia)
  rw [waitedUntil] at stalled askedAt
  have periodic : Stalled candidate (.windDown ⟨0, candidate.retryPeriod⟩ asked)
      (lingering.now + candidate.retryPeriod.nanos) lingering m₃ := by
    rw [askedAt]
    exact stalled
  have stillYoung : count = 0 ∨ lingering.now + count * candidate.retryPeriod.nanos - asked <
      candidate.renewDeadline.nanos := by
    rw [askedAt, Nat.add_sub_cancel_left]
    exact young
  obtain ⟨worn, m₄, stalled, wornAt⟩ := stalled_cycles ticking count periodic stillYoung
    (by lia) (by lia)
  obtain ⟨final, stalled, finalAt⟩ := stalled_pass stalled _ (by lia) (by lia) (Nat.le_refl _)
  exact ⟨final, m₄, _, _, stalled, by rw [finalAt, wornAt, askedAt, lasts, split, Nat.add_assoc]⟩

/-- The age that patience allows is reached, for every age at the request within patience. -/
theorem reached_of_patience (candidate : Candidate) (ticking : 0 < candidate.retryPeriod.nanos)
    (inRange : 2 * candidate.ttl.nanos + 5 * candidate.retryPeriod.nanos < Instant.limit)
    (asked : Nat) (patient : asked ≤ candidate.patience) :
    ∃ (c : Contest) (m : Member), c.Reached ∧ c.members.get? 1 = some m ∧
      m.run.candidate = candidate ∧ m.IsWorking ∧
      (c.log.tenure 1).written = some 0 ∧ (∀ heed ∈ (c.log.tenure 1).heeded, heed ≤ asked) ∧
      c.now = asked + candidate.patience := by
  obtain ⟨c, m, ticker, due, stalled, final⟩ :=
    stalled_throughout candidate ticking inRange asked patient
  obtain ⟨moves, run⟩ := stalled.alone.reached
  refine ⟨c, m, ⟨moves, run⟩, stalled.alone.present, stalled.runs, ⟨stalled.work, ?_⟩,
    stalled.alone.written, ?_, final⟩
  · rw [stalled.stage]
    intro broken
    cases broken
  · -- The pace of the last stage says when the request was heeded.
    have paces := paces_of_career (Contest.career_of_punctualPlay run stalled.alone.present)
    rw [stalled.stage] at paces
    obtain ⟨beat, lingers, -⟩ := paces
    obtain ⟨written, -, kept⟩ := lingers.kept
    intro heed member
    obtain ⟨-, latest⟩ := kept heed member
    rw [latest]
    exact Nat.le_max_left _ _

theorem renewDeadline_le_patience (c : Candidate) (ticking : 0 < c.retryPeriod.nanos) :
    c.renewDeadline.nanos ≤ c.patience := by
  unfold Candidate.patience
  generalize c.renewDeadline.nanos = deadline
  generalize c.retryPeriod.nanos = period at ticking ⊢
  have covered := Nat.lt_div_mul_add (a := deadline + period - 1) ticking
  have larger := Nat.mul_le_mul_right period
    (Nat.le_max_right 1 ((deadline + period - 1) / period))
  omega

/-- There is room for a second patience only if one tick uses up the first. -/
theorem twice_patience_le_iff (c : Candidate) (ticking : 0 < c.retryPeriod.nanos) :
    c.patience + c.patience ≤ c.renewDeadline.nanos + c.retryPeriod.nanos ↔
      c.renewDeadline.nanos = c.retryPeriod.nanos := by
  obtain ⟨count, lasts, young⟩ := patience_eq c ticking
  have covered := renewDeadline_le_patience c ticking
  have split : (count + 1) * c.retryPeriod.nanos =
      count * c.retryPeriod.nanos + c.retryPeriod.nanos := Nat.succ_mul _ _
  rw [lasts, split] at covered ⊢
  constructor
  · intro room
    have none : count * c.retryPeriod.nanos = 0 := by omega
    omega
  · intro same
    have none : count = 0 := by
      rcases young with none | young
      · exact none
      · rw [same] at young
        by_contra some
        have one := Nat.mul_le_mul_right c.retryPeriod.nanos (Nat.pos_of_ne_zero some)
        omega
    rw [none, same]
    omega

/-- In every contest on punctual time, while a member with the candidate works and its tenure is as
given, its lease was written at most so long ago. -/
def Candidate.WorksWithin (candidate : Candidate) (bound : Nat) (given : Tenure → Prop) : Prop :=
  ∀ (c : Contest) (id : Nat) (m : Member), c.Reached → c.members.get? id = some m →
    m.run.candidate = candidate → m.IsWorking → given (c.log.tenure id) →
      (c.log.tenure id).WrittenWithin bound c.now

theorem worksWithin_of_room {candidate : Candidate} {allowance bound : Nat}
    (room : min allowance candidate.patience + candidate.patience ≤ bound) :
    candidate.WorksWithin bound (·.HeededWithin allowance) := by
  intro c id m reached present same working heeded
  have aged := aged_of_reached reached present working
  rw [same] at aged
  exact (aged.writtenWithin heeded).weaken room

/-- Without a request, and once a renewal has succeeded after it, work stops in time. -/
theorem worksWithin_heededWithin_zero (candidate : Candidate) :
    candidate.WorksWithin (candidate.renewDeadline.nanos + candidate.retryPeriod.nanos)
      (·.HeededWithin 0) := by
  refine worksWithin_of_room ?_
  rw [Nat.zero_min, Nat.zero_add]
  exact candidate.patience_le

/-- If the request comes within an allowance, the bound holds exactly when it leaves room for the
age at the request and a whole patience. -/
theorem worksWithin_heededWithin_iff (candidate : Candidate)
    (ticking : 0 < candidate.retryPeriod.nanos)
    (inRange : 2 * candidate.ttl.nanos + 5 * candidate.retryPeriod.nanos < Instant.limit)
    (allowance bound : Nat) :
    candidate.WorksWithin bound (·.HeededWithin allowance) ↔
      min allowance candidate.patience + candidate.patience ≤ bound := by
  refine ⟨fun within => ?_, worksWithin_of_room⟩
  obtain ⟨c, m, reached, present, same, working, written, heeded, final⟩ :=
    reached_of_patience candidate ticking inRange (min allowance candidate.patience)
      (Nat.min_le_right _ _)
  have allowed : (c.log.tenure 1).HeededWithin allowance := by
    intro last wrote heed member
    have soon := heeded heed member
    lia
  obtain ⟨last, wrote, early⟩ := within c 1 m reached present same working allowed
  cases written.symm.trans wrote
  rw [final, Nat.zero_add] at early
  exact early

/-- Work stops within the renew deadline and one retry period of the last write: whenever the
request comes, exactly if the deadline is one retry period; and if it comes within an allowance,
exactly if that leaves room for a whole patience. -/
theorem worksWithin_deadline_iff (candidate : Candidate)
    (ticking : 0 < candidate.retryPeriod.nanos)
    (inRange : 2 * candidate.ttl.nanos + 5 * candidate.retryPeriod.nanos < Instant.limit) :
    (candidate.WorksWithin (candidate.renewDeadline.nanos + candidate.retryPeriod.nanos)
        (fun _ => True) ↔
      candidate.renewDeadline.nanos = candidate.retryPeriod.nanos) ∧
    ∀ allowance,
      candidate.WorksWithin (candidate.renewDeadline.nanos + candidate.retryPeriod.nanos)
          (·.HeededWithin allowance) ↔
        min allowance candidate.patience + candidate.patience ≤
          candidate.renewDeadline.nanos + candidate.retryPeriod.nanos := by
  refine ⟨?_, fun allowance => worksWithin_heededWithin_iff candidate ticking inRange _ _⟩
  rw [← twice_patience_le_iff candidate ticking]
  constructor
  · intro within
    have allowed := (worksWithin_heededWithin_iff candidate ticking inRange candidate.patience
      (candidate.renewDeadline.nanos + candidate.retryPeriod.nanos)).mp
        fun c id m reached present same working _ =>
          within c id m reached present same working trivial
    rwa [Nat.min_self] at allowed
  · intro room c id m reached present same working _
    have aged := aged_of_reached reached present working
    rw [same] at aged
    exact aged.writtenWithin_twice.weaken room

theorem worksWithin_deadline_iff_tenSeconds :
    (Candidate.tenSeconds.WorksWithin (Candidate.tenSeconds.renewDeadline.nanos +
        Candidate.tenSeconds.retryPeriod.nanos) (fun _ => True) ↔
      Candidate.tenSeconds.renewDeadline.nanos = Candidate.tenSeconds.retryPeriod.nanos) ∧
    ∀ allowance,
      Candidate.tenSeconds.WorksWithin (Candidate.tenSeconds.renewDeadline.nanos +
          Candidate.tenSeconds.retryPeriod.nanos) (·.HeededWithin allowance) ↔
        min allowance Candidate.tenSeconds.patience + Candidate.tenSeconds.patience ≤
          Candidate.tenSeconds.renewDeadline.nanos + Candidate.tenSeconds.retryPeriod.nanos :=
  worksWithin_deadline_iff .tenSeconds (by decide) (by decide)

/-- A run wins its lease at once, a rival writes the lease after a second, two renewals fail, and the
run is asked to stop after five and a half seconds, half a second before a third would end leading.
Two more renewals fail in the wind-down, and the third is due. -/
def askedWhileFailing : List Move :=
  [.start 1 .tenSeconds, .act 1 (.ofUnix 0 0), .act 1 (.ofUnix 0 0), .call 1, .call 1,
    .act 1 (.ofUnix 0 0), .act 1 (.ofUnix 0 0), .pass (.ofSeconds 1),
    .foreign "test/lease" (.update 1 ⟨"x", .ofSeconds 1000, .ofUnix 0 0, .ofUnix 0 0, 0⟩),
    .pass (.ofSeconds 1), .act 1 (.ofUnix 2 0), .call 1,
    .pass (.ofSeconds 2), .act 1 (.ofUnix 4 0), .call 1,
    .pass (.ofMillis 1500), .cancel 1, .act 1 (.ofUnix 5 0), .act 1 (.ofUnix 5 0),
    .pass (.ofSeconds 2), .act 1 (.ofUnix 7 0), .call 1,
    .pass (.ofSeconds 2), .act 1 (.ofUnix 9 0), .call 1, .pass (.ofSeconds 2)]

/-- The work runs eleven and a half seconds after the lease was written, not seven at most. -/
theorem askedWhileFailing_not_writtenWithin :
    ∃ c m, Contest.empty.punctualPlay askedWhileFailing = some c ∧ c.members.get? 1 = some m ∧
      0 < m.run.candidate.ttl.nanos ∧ 0 < m.run.candidate.retryPeriod.nanos ∧ m.IsWorking ∧
      ¬ (c.log.tenure 1).WrittenWithin
        (m.run.candidate.renewDeadline.nanos + m.run.candidate.retryPeriod.nanos) c.now := by
  have played : ((Contest.empty.punctualPlay askedWhileFailing).bind fun c =>
      (c.members.get? 1).map fun m => (m.run.candidate, decide (m.work = .running),
        decide (m.run.stage = .broken), (c.log.tenure 1).written, c.now)) =
      some (.tenSeconds, true, false, some 0, 11500000000) := by
    decide +kernel
  obtain ⟨c, run, rest⟩ := Option.bind_eq_some_iff.mp played
  obtain ⟨m, present, found⟩ := Option.map_eq_some_iff.mp rest
  obtain ⟨candidate, working, whole, written, now⟩ : m.run.candidate = .tenSeconds ∧
      m.work = .running ∧ m.run.stage ≠ .broken ∧ (c.log.tenure 1).written = some 0 ∧
      c.now = 11500000000 := by
    simpa only [Prod.mk.injEq, decide_eq_true_eq, decide_eq_false_iff_not] using found
  refine ⟨c, m, run, present, ?_, ?_, ⟨working, whole⟩, ?_⟩
  · rw [candidate]
    decide
  · rw [candidate]
    decide
  · rw [candidate, now]
    rintro ⟨last, wrote, early⟩
    cases written.symm.trans wrote
    exact absurd early (by decide)

end LeaderLease
