import LeaderLease.Proofs.Tenure

/-!
# The pace of renewal

`Paces` says for each stage of a run how its tenure stands to the clock. While leading, the beats are
one retry period apart. A request to stop starts a new rhythm at the instant at which it is heeded,
and failing renewals are given their whole time again. `paces_of_career` proves it along every
career.
-/

set_option autoImplicit false

namespace LeaderLease

namespace Candidate

/-- A leader goes on when a renewal fails at this age of the last one that succeeded. -/
def Bears (c : Candidate) (age : Nat) : Prop :=
  (∃ count, age = count * c.retryPeriod.nanos) ∧ (age = 0 ∨ age < c.renewDeadline.nanos)

/-- The age of the last renewal at which failing renewals end leading. -/
def patience (c : Candidate) : Nat :=
  max 1 ((c.renewDeadline.nanos + c.retryPeriod.nanos - 1) / c.retryPeriod.nanos) *
    c.retryPeriod.nanos

/-- A lease time of ten seconds and a retry period of two. -/
def tenSeconds : Candidate := ⟨"a", "test/lease", .ofSeconds 10, .ofSeconds 2⟩

example : tenSeconds.patience = 6000000000 := by decide

theorem bears_zero (c : Candidate) : c.Bears 0 := ⟨⟨0, (Nat.zero_mul _).symm⟩, Or.inl rfl⟩

theorem Bears.next {c : Candidate} {age : Nat} (bears : c.Bears age)
    (short : age + c.retryPeriod.nanos < c.renewDeadline.nanos) :
    c.Bears (age + c.retryPeriod.nanos) := by
  obtain ⟨⟨count, rfl⟩, -⟩ := bears
  exact ⟨⟨count + 1, (Nat.succ_mul _ _).symm⟩, Or.inr short⟩

theorem Bears.next_le {c : Candidate} {age : Nat} (bears : c.Bears age) :
    age + c.retryPeriod.nanos ≤ c.patience := by
  obtain ⟨⟨count, rfl⟩, small⟩ := bears
  rcases Nat.eq_zero_or_pos c.retryPeriod.nanos with still | ticking
  · simp [still]
  unfold patience
  rw [← Nat.succ_mul]
  refine Nat.mul_le_mul_right _ ?_
  rcases small with zero | short
  · have none : count = 0 := by
      rcases Nat.mul_eq_zero.mp zero with none | still
      · exact none
      · omega
    rw [none]
    exact Nat.le_max_left _ _
  · refine Nat.le_trans ?_ (Nat.le_max_right _ _)
    refine (Nat.le_div_iff_mul_le ticking).mpr ?_
    rw [Nat.succ_mul]
    omega

/-- Leading lasts at least half the lease time, and at most one retry period longer. -/
theorem patience_le (c : Candidate) :
    c.patience ≤ c.renewDeadline.nanos + c.retryPeriod.nanos := by
  unfold patience
  generalize c.renewDeadline.nanos = deadline
  generalize c.retryPeriod.nanos = period
  rcases Nat.eq_zero_or_pos period with rfl | ticking
  · simp
  have whole : (deadline + period - 1) / period * period ≤ deadline + period - 1 :=
    Nat.div_mul_le_self _ _
  rcases Nat.le_total ((deadline + period - 1) / period) 1 with small | large
  · rw [Nat.max_eq_left small]
    omega
  · rw [Nat.max_eq_right large]
    omega

end Candidate

namespace Tenure

/-- Leading, with nothing asked: the lease was renewed last at one instant, and the last beat was at
another. -/
structure Leads (c : Candidate) (t : Tenure) (renewedAt beat : Instant) : Prop where
  unheeded : t.heeded = []
  steady : Steady c.retryPeriod.nanos t.beats beat
  written : t.written = some renewedAt

/-- The beats fall into those before a request was heeded and those after it. -/
structure Parts (period : Nat) (t : Tenure) (before during : List Instant)
    (last heed beat : Instant) : Prop where
  heeded : t.heeded = [heed]
  beats : t.beats = before ++ during
  before : Steady period before last
  notEarlier : last ≤ heed
  notLater : heed ≤ last + period
  during : Steady period (heed :: during) beat

/-- Winding down: the time for renewals counts from the request or from a later renewal. -/
structure Lingers (c : Candidate) (t : Tenure) (renewedAt beat : Instant) : Prop where
  parts : ∃ before during last heed, Parts c.retryPeriod.nanos t before during last heed beat
  kept : ∃ written, t.written = some written ∧
    ∀ heed ∈ t.heeded, heed ≤ written + c.patience ∧ renewedAt = max heed written

/-- The beats of a tenure, whatever became of it. -/
def Rhythmic (period : Nat) (t : Tenure) : Prop :=
  (t.heeded = [] ∧ InStep period t.beats) ∨
    ∃ before during last heed beat, Parts period t before during last heed beat

/-- The last renewal is not older than patience allows, counted from a request if one was heeded
while patience lasted. -/
def Aged (c : Candidate) (now : Instant) (t : Tenure) : Prop :=
  ∃ written, t.written = some written ∧
    (now ≤ written + c.patience ∨
      ∃ heed ∈ t.heeded, heed ≤ written + c.patience ∧ now ≤ heed + c.patience)

end Tenure

structure Waits (c : Candidate) (now : Instant) (ticker : Ticker) (renewedAt beat : Instant) :
    Prop where
  ticker : ticker = ⟨beat + c.retryPeriod.nanos, c.retryPeriod⟩
  notEarlier : beat ≤ now
  notLater : now ≤ beat + c.retryPeriod.nanos
  bears : ∃ age, beat = renewedAt + age ∧ c.Bears age

structure Tries (c : Candidate) (now : Instant) (ticker : Ticker) (renewedAt : Instant) :
    Prop where
  ticker : ticker = ⟨now + c.retryPeriod.nanos, c.retryPeriod⟩
  bears : ∃ age, now = renewedAt + age + c.retryPeriod.nanos ∧ c.Bears age

/-- The tenure of a run that waits for its next tick. -/
def Awaits (c : Candidate) (now : Instant) (t : Tenure) : Goal → Prop
  | .acquire _ => t = .start
  | .lead ticker renewedAt => ∃ beat, t.Leads c renewedAt beat ∧ Waits c now ticker renewedAt beat
  | .windDown ticker renewedAt =>
    ∃ beat, t.Lingers c renewedAt beat ∧ Waits c now ticker renewedAt beat

/-- The tenure of a run in the middle of an attempt. -/
def Pursues (c : Candidate) (now : Instant) (t : Tenure) : Goal → Prop
  | .acquire _ => t = .start
  | .lead ticker renewedAt => t.Leads c renewedAt now ∧ Tries c now ticker renewedAt
  | .windDown ticker renewedAt => t.Lingers c renewedAt now ∧ Tries c now ticker renewedAt

/-- How the tenure of a run stands to the clock. -/
def Paces (c : Candidate) (now : Instant) (t : Tenure) : Stage → Prop
  | .fresh => t = .start
  | .waiting goal => Awaits c now t goal
  | .reading goal _ | .writing goal _ => Pursues c now t goal
  | .elected | .installing => t.Leads c now now
  | .relieving .requested => t.Lingers c now now
  | .relieving .lost | .aborting => t.Rhythmic c.retryPeriod.nanos ∧ t.Aged c now
  | .relieving (.workEnded _) | .releasing _ _ _ | .retiring _ | .closing _ | .announcing
  | .ended _ | .broken => t.Rhythmic c.retryPeriod.nanos

/-! ## What a tenure goes through -/

namespace Tenure

variable {c : Candidate} {t : Tenure} {now renewedAt beat : Instant}

theorem rhythmic_start (period : Nat) : start.Rhythmic period := Or.inl ⟨rfl, .nil⟩

theorem Leads.rhythmic (leads : t.Leads c renewedAt beat) : t.Rhythmic c.retryPeriod.nanos :=
  Or.inl ⟨leads.unheeded, leads.steady.inStep⟩

theorem Lingers.rhythmic (lingers : t.Lingers c renewedAt beat) :
    t.Rhythmic c.retryPeriod.nanos := by
  obtain ⟨before, during, last, heed, parts⟩ := lingers.parts
  exact Or.inr ⟨before, during, last, heed, beat, parts⟩

theorem Parts.beats_ne_nil {period : Nat} {before during : List Instant} {last heed : Instant}
    (parts : Parts period t before during last heed beat) : t.beats ≠ [] := by
  rw [parts.beats]
  intro empty
  exact parts.before.ne_nil (List.append_eq_nil_iff.mp empty).1

theorem beats_write (begun : t.beats ≠ []) : (t.write now).beats = t.beats := by
  simp only [write, if_neg begun]

theorem Rhythmic.write {period : Nat} (rhythmic : t.Rhythmic period) :
    (t.write now).Rhythmic period := by
  rcases rhythmic with ⟨unheeded, inStep⟩ | ⟨before, during, last, heed, beat, parts⟩
  · refine Or.inl ⟨unheeded, ?_⟩
    by_cases begun : t.beats = []
    · simp only [Tenure.write, if_pos begun]
      exact .singleton now
    · rw [beats_write begun]
      exact inStep
  · refine Or.inr ⟨before, during, last, heed, beat, ?_⟩
    exact { parts with beats := (beats_write parts.beats_ne_nil).trans parts.beats }

theorem leads_start : (start.write now).Leads c now now where
  unheeded := rfl
  steady := steady_singleton _ now
  written := rfl

theorem Leads.beaten (leads : t.Leads c renewedAt beat) :
    (t.beat (beat + c.retryPeriod.nanos)).Leads c renewedAt (beat + c.retryPeriod.nanos) := by
  have begun := leads.steady.ne_nil
  simp only [Tenure.beat, if_neg begun]
  exact { leads with steady := leads.steady.snoc }

theorem Leads.write (leads : t.Leads c renewedAt beat) : (t.write now).Leads c now beat where
  unheeded := leads.unheeded
  steady := by
    rw [beats_write leads.steady.ne_nil]
    exact leads.steady
  written := rfl

theorem Leads.heed (leads : t.Leads c renewedAt beat) (notEarlier : beat ≤ now)
    (notLater : now ≤ beat + c.retryPeriod.nanos) (kept : now ≤ renewedAt + c.patience)
    (written : renewedAt ≤ now) : (t.heed now).Lingers c now now where
  parts := by
    refine ⟨t.beats, [], beat, now, ?_⟩
    exact {
      heeded := by simp only [Tenure.heed, leads.unheeded, List.nil_append]
      beats := (List.append_nil _).symm
      before := leads.steady
      notEarlier := notEarlier
      notLater := notLater
      during := steady_singleton _ now }
  kept := by
    refine ⟨renewedAt, leads.written, fun heed member => ?_⟩
    simp only [Tenure.heed, leads.unheeded, List.nil_append, List.mem_singleton] at member
    subst member
    exact ⟨kept, (Nat.max_eq_left written).symm⟩

theorem Lingers.beaten (lingers : t.Lingers c renewedAt beat) :
    (t.beat (beat + c.retryPeriod.nanos)).Lingers c renewedAt (beat + c.retryPeriod.nanos) := by
  obtain ⟨before, during, last, heed, parts⟩ := lingers.parts
  simp only [Tenure.beat, if_neg parts.beats_ne_nil]
  refine ⟨⟨before, during ++ [beat + c.retryPeriod.nanos], last, heed, ?_⟩, lingers.kept⟩
  exact { parts with
    beats := by rw [parts.beats, List.append_assoc]
    during := parts.during.snoc }

theorem Lingers.write (lingers : t.Lingers c renewedAt beat) (passed : renewedAt ≤ now) :
    (t.write now).Lingers c now beat where
  parts := by
    obtain ⟨before, during, last, heed, parts⟩ := lingers.parts
    refine ⟨before, during, last, heed, ?_⟩
    exact { parts with beats := (beats_write parts.beats_ne_nil).trans parts.beats }
  kept := by
    obtain ⟨written, -, kept⟩ := lingers.kept
    refine ⟨now, rfl, fun heed member => ?_⟩
    obtain ⟨-, renewed⟩ := kept heed member
    have notLater : heed ≤ now := by lia
    exact ⟨by lia, (Nat.max_eq_right notLater).symm⟩

theorem Leads.aged (leads : t.Leads c renewedAt beat) (kept : now ≤ renewedAt + c.patience) :
    t.Aged c now := ⟨renewedAt, leads.written, Or.inl kept⟩

theorem Lingers.aged (lingers : t.Lingers c renewedAt beat)
    (kept : now ≤ renewedAt + c.patience) : t.Aged c now := by
  obtain ⟨before, during, last, heed, parts⟩ := lingers.parts
  obtain ⟨written, wrote, bound⟩ := lingers.kept
  have member : heed ∈ t.heeded := by
    rw [parts.heeded]
    exact List.mem_singleton_self heed
  obtain ⟨early, renewed⟩ := bound heed member
  refine ⟨written, wrote, ?_⟩
  rcases Nat.le_total heed written with first | first
  · rw [Nat.max_eq_right first] at renewed
    exact Or.inl (renewed ▸ kept)
  · rw [Nat.max_eq_left first] at renewed
    exact Or.inr ⟨heed, member, early, renewed ▸ kept⟩

end Tenure

/-! ## What one step does to the pace -/

section Steps

variable {c : Candidate} {t : Tenure} {now renewedAt beat : Instant} {ticker : Ticker}

theorem Waits.kept (waits : Waits c now ticker renewedAt beat) : now ≤ renewedAt + c.patience := by
  obtain ⟨age, rfl, bears⟩ := waits.bears
  have next := bears.next_le
  have notLater := waits.notLater
  lia

theorem Waits.renewed_le (waits : Waits c now ticker renewedAt beat) : renewedAt ≤ now := by
  obtain ⟨age, rfl, -⟩ := waits.bears
  exact Nat.le_trans (Nat.le_add_right _ _) waits.notEarlier

theorem Waits.wait {later : Instant} (waits : Waits c now ticker renewedAt beat)
    (passed : now ≤ later) (early : later ≤ ticker.due) : Waits c later ticker renewedAt beat where
  ticker := waits.ticker
  notEarlier := Nat.le_trans waits.notEarlier passed
  notLater := by
    rw [waits.ticker] at early
    exact early
  bears := waits.bears

theorem Waits.tick (waits : Waits c now ticker renewedAt beat) (due : ticker.due ≤ now) :
    now = beat + c.retryPeriod.nanos ∧ Tries c now (ticker.taken now) renewedAt := by
  have notLater := waits.notLater
  obtain ⟨age, ran, bears⟩ := waits.bears
  rw [waits.ticker] at due ⊢
  have onTime : now = beat + c.retryPeriod.nanos := Nat.le_antisymm notLater due
  refine ⟨onTime, ?_, age, by rw [onTime, ran], bears⟩
  exact Ticker.taken_onTime onTime.symm

theorem Tries.kept (tries : Tries c now ticker renewedAt) : now ≤ renewedAt + c.patience := by
  obtain ⟨age, rfl, bears⟩ := tries.bears
  have next := bears.next_le
  lia

theorem Tries.renewed_le (tries : Tries c now ticker renewedAt) : renewedAt ≤ now := by
  obtain ⟨age, rfl, -⟩ := tries.bears
  lia

theorem Tries.succeeded (tries : Tries c now ticker renewedAt) : Waits c now ticker now now where
  ticker := tries.ticker
  notEarlier := Nat.le_refl now
  notLater := Nat.le_add_right _ _
  bears := ⟨0, rfl, c.bears_zero⟩

theorem Tries.failed (tries : Tries c now ticker renewedAt)
    (short : ¬ c.renewDeadline.nanos ≤ now - renewedAt) : Waits c now ticker renewedAt now where
  ticker := tries.ticker
  notEarlier := Nat.le_refl now
  notLater := Nat.le_add_right _ _
  bears := by
    obtain ⟨age, ran, bears⟩ := tries.bears
    refine ⟨age + c.retryPeriod.nanos, by rw [ran, Nat.add_assoc], bears.next ?_⟩
    lia

theorem waits_delayed (next : Ticker.delayed? now c.retryPeriod = some ticker) :
    Waits c now ticker now now where
  ticker := by
    obtain ⟨due, shown, made⟩ := Option.map_eq_some_iff.mp next
    rw [← made, Instant.after?_eq_some shown]
  notEarlier := Nat.le_refl now
  notLater := Nat.le_add_right _ _
  bears := ⟨0, rfl, c.bears_zero⟩

end Steps

theorem paces_handBack {r : Run} {now : Instant} {t : Tenure} (wall : Timestamp)
    (verdict : Verdict) (rhythmic : t.Rhythmic r.candidate.retryPeriod.nanos) :
    Paces (r.handBack wall verdict).candidate now
      (t.arrive now (r.handBack wall verdict).stage) (r.handBack wall verdict).stage := by
  rcases Run.handBack_cases r wall verdict with same | ⟨e, seen, mine, same⟩ <;> rw [same] <;>
    exact rhythmic

theorem pursues_tick {c : Candidate} {now : Instant} {t : Tenure} {goal : Goal}
    (awaits : Awaits c now t goal) (due : goal.ticker.due ≤ now) :
    Pursues c now (t.beat now) (goal.ticked now) := by
  cases goal with
  | acquire ticker =>
      have fresh : t = .start := awaits
      subst fresh
      rfl
  | lead ticker renewedAt =>
      obtain ⟨beat, leads, waits⟩ := awaits
      obtain ⟨onTime, tries⟩ := waits.tick due
      refine ⟨?_, tries⟩
      rw [onTime]
      exact leads.beaten
  | windDown ticker renewedAt =>
      obtain ⟨beat, lingers, waits⟩ := awaits
      obtain ⟨onTime, tries⟩ := waits.tick due
      refine ⟨?_, tries⟩
      rw [onTime]
      exact lingers.beaten

theorem Pursues.rhythmic {c : Candidate} {now : Instant} {t : Tenure} {goal : Goal}
    (pursues : Pursues c now t goal) : t.Rhythmic c.retryPeriod.nanos := by
  cases goal with
  | acquire ticker =>
      have fresh : t = .start := pursues
      subst fresh
      exact Tenure.rhythmic_start _
  | lead ticker renewedAt => exact pursues.1.rhythmic
  | windDown ticker renewedAt => exact pursues.1.rhythmic

theorem paces_act {r next : Run} {v : View} {effects : List Effect} {t : Tenure}
    (acts : r.Acts v next effects) (paces : Paces r.candidate v.now t r.stage) :
    Paces next.candidate v.now (t.arrive v.now next.stage) next.stage := by
  cases acts with
  | refuse stage | withdraw stage =>
      rw [stage] at paces
      have fresh : t = .start := paces
      subst fresh
      exact Tenure.rhythmic_start _
  | begin stage =>
      rw [stage] at paces
      exact paces
  | attempt stage free due =>
      rw [stage] at paces
      exact pursues_tick paces due
  | heed stage asked =>
      rw [stage] at paces
      obtain ⟨beat, leads, waits⟩ := paces
      exact leads.heed waits.notEarlier waits.notLater waits.kept waits.renewed_le
  | notice stage =>
      rw [stage] at paces
      obtain ⟨beat, leads, waits⟩ := paces
      exact leads.rhythmic
  | finish stage =>
      rw [stage] at paces
      obtain ⟨beat, lingers, waits⟩ := paces
      exact paces_handBack _ _ lingers.rhythmic
  | proclaim stage =>
      rw [stage] at paces
      exact paces
  | install stage made | linger stage made =>
      rw [stage] at paces
      exact ⟨v.now, paces, waits_delayed made⟩
  | installLate stage | lingerLate stage =>
      rw [stage] at paces
      exact paces.rhythmic
  | dismiss stage =>
      rw [stage] at paces
      exact paces
  | conclude stage =>
      rw [stage] at paces
      exact paces_handBack _ _ paces
  | abort stage =>
      rw [stage] at paces
      exact paces.1
  | retire stage | closeFailed stage | closeAsked stage | closeLost stage | announce stage =>
      rw [stage] at paces
      exact paces

theorem paces_failed {r : Run} {now : Instant} {t : Tenure} {goal : Goal}
    (pursues : Pursues r.candidate now t goal) :
    Paces r.candidate now (t.arrive now (r.failed now goal).stage) (r.failed now goal).stage := by
  cases goal with
  | acquire ticker => exact pursues
  | lead ticker renewedAt =>
      obtain ⟨leads, tries⟩ := pursues
      by_cases old : r.candidate.renewDeadline.nanos ≤ now - renewedAt
      · simp only [Run.failed, if_pos old]
        exact ⟨leads.rhythmic, leads.aged tries.kept⟩
      · simp only [Run.failed, if_neg old]
        exact ⟨now, leads, tries.failed old⟩
  | windDown ticker renewedAt =>
      obtain ⟨lingers, tries⟩ := pursues
      by_cases old : r.candidate.renewDeadline.nanos ≤ now - renewedAt
      · simp only [Run.failed, if_pos old]
        exact ⟨lingers.rhythmic, lingers.aged tries.kept⟩
      · simp only [Run.failed, if_neg old]
        exact ⟨now, lingers, tries.failed old⟩

theorem paces_read {r next : Run} {now : Instant} {goal : Goal} {wall : Timestamp}
    {answer : ReadAnswer} {effects : List Effect} {t : Tenure}
    (reads : r.Reads now goal wall answer next effects) (pursues : Pursues r.candidate now t goal) :
    Paces r.candidate now (t.arrive now next.stage) next.stage := by
  cases reads with
  | unreadable e => exact paces_failed pursues
  | held e => exact paces_failed (r := (r.observe now e).1) pursues
  | absent => exact pursues
  | own e => exact pursues
  | free e => exact pursues
  | overflow e => exact pursues.rhythmic

theorem paces_succeeded {r : Run} {now : Instant} {t : Tenure} {goal : Goal}
    (pursues : Pursues r.candidate now t goal) :
    Paces r.candidate now ((t.write now).arrive now (r.succeeded now goal).stage)
      (r.succeeded now goal).stage := by
  cases goal with
  | acquire ticker =>
      have fresh : t = .start := pursues
      subst fresh
      exact Tenure.leads_start
  | lead ticker renewedAt =>
      obtain ⟨leads, tries⟩ := pursues
      exact ⟨now, leads.write, tries.succeeded⟩
  | windDown ticker renewedAt =>
      obtain ⟨lingers, tries⟩ := pursues
      exact ⟨now, lingers.write tries.renewed_le, tries.succeeded⟩

theorem paces_write {r next : Run} {now : Instant} {w : Write} {answer : WriteAnswer}
    {effects : List Effect} {t : Tenure} (called : r.call? = some (.write w))
    (writes : r.Writes now answer next effects) (paces : Paces r.candidate now t r.stage) :
    Paces r.candidate now ((t.answered now answer).arrive now next.stage) next.stage := by
  cases writes with
  | succeeded e stage =>
      rw [stage] at paces
      exact paces_succeeded (r := (r.observe now e).1) paces
  | failed stage =>
      rw [stage] at paces
      exact paces_failed paces
  | released e stage =>
      rw [stage] at paces
      exact paces.write
  | kept stage =>
      rw [stage] at paces
      exact paces
  | exhausted =>
      cases stage : r.stage with
      | writing goal w =>
          rw [stage] at paces
          exact Pursues.rhythmic paces
      | releasing verdict version lease =>
          rw [stage] at paces
          exact paces
      | _ => simp [Run.call?, stage] at called

theorem paces_wait {c : Candidate} {now later : Instant} {t : Tenure} {goal : Goal}
    (awaits : Awaits c now t goal) (passed : now ≤ later) (early : later ≤ goal.ticker.due) :
    Awaits c later t goal := by
  cases goal with
  | acquire ticker => exact awaits
  | lead ticker renewedAt =>
      obtain ⟨beat, leads, waits⟩ := awaits
      exact ⟨beat, leads, waits.wait passed early⟩
  | windDown ticker renewedAt =>
      obtain ⟨beat, lingers, waits⟩ := awaits
      exact ⟨beat, lingers, waits.wait passed early⟩

theorem paces_turn {id : Nat} {now : Instant} {m next : Member} {log : Log} {facts : List Fact}
    (step : Turn id now m next facts)
    (paces : Paces m.run.candidate now (log.tenure id) m.run.stage) :
    Paces next.run.candidate now (Log.tenure (log ++ facts) id) next.run.stage := by
  cases step with
  | act acts =>
      rw [Log.tenure_facts, Member.after_run]
      exact paces_act acts paces
  | read stage reads =>
      rw [← List.append_assoc, Log.tenure_facts, Log.tenure_readFacts, Member.after_run,
        reads.candidate]
      rw [stage] at paces
      exact paces_read reads paces
  | write called writes =>
      rw [← List.append_assoc, Log.tenure_facts, Log.tenure_writeFacts, Member.after_run,
        writes.candidate]
      exact paces_write called writes paces
  | request unasked =>
      rw [Log.tenure_requestFacts]
      exact paces
  | trigger =>
      rw [List.append_nil]
      exact paces
  | finish running =>
      rw [Log.tenure_append]
      exact paces

theorem paces_of_career {id : Nat} {now : Instant} {m : Member} {log : Log}
    (career : Career id now m log) :
    Paces m.run.candidate now (log.tenure id) m.run.stage := by
  induction career with
  | @start now candidate log unknown =>
      have silent : Log.tenure (log ++ [.started id]) id = .start := by
        have before : Log.tenure ([] ++ log) id = .start := Log.tenure_of_elsewhere unknown
        rw [Log.tenure_append, ← List.nil_append log, before]
        rfl
      rw [silent]
      rfl
  | turn before step ih => exact paces_turn step ih
  | others before elsewhere ih =>
      rw [Log.tenure_of_elsewhere elsewhere]
      exact ih
  | @wait now m log time before idle ih =>
      rcases stage_of_canWait idle with ⟨goal, stage, early⟩ | ended
      · rw [stage] at ih ⊢
        exact paces_wait ih (Nat.le_add_right _ _) early
      · cases stage : m.run.stage with
        | ended outcome => rwa [stage] at ih
        | broken => rwa [stage] at ih
        | _ => simp [Run.hasEnded, stage] at ended

end LeaderLease
