import LeaderLease.Proofs.Pace

/-!
# The rhythm of renewal across a request to stop

A term lasts from the write that wins the lease until the work has ended or the lease is lost. Within
it no two beats are further apart than two retry periods. They are within one retry period exactly
when a request to stop is heeded at a beat, or the term is over before the next beat would have come:
heeding starts a new rhythm, and the tick that was pending is not taken.
-/

set_option autoImplicit false

namespace LeaderLease

/-- The lease was won, and leading or winding down goes on. -/
def Stage.inTerm : Stage → Bool
  | .elected | .installing | .relieving .requested => true
  | .waiting goal | .reading goal _ | .writing goal _ => goal.isRenewal
  | _ => false

/-- The beats of a member's tenure, and the present instant while its term lasts. -/
def Contest.pulse (c : Contest) (id : Nat) (m : Member) : List Instant :=
  (c.log.tenure id).beats ++ if m.run.stage.inTerm then [c.now] else []

theorem Fresh.weaken {period longer : Nat} {times : List Instant} (fresh : Fresh period times)
    (le : period ≤ longer) : Fresh longer times :=
  fresh.imp fun _ _ soon => Nat.le_trans soon (Nat.add_le_add_left le _)

namespace Steady

variable {period : Nat} {times : List Instant} {last now : Instant}

theorem fresh_snoc (steady : Steady period times last) (soon : now ≤ last + period) :
    Fresh period (times ++ [now]) := by
  refine List.isChain_append.mpr ⟨steady.inStep.fresh, .singleton now, ?_⟩
  intro earlier atEnd later atStart
  rw [steady.last] at atEnd
  cases atEnd
  cases atStart
  exact soon

theorem fresh_append_iff {rest : List Instant} (steady : Steady period times last)
    (fresh : Fresh period rest) :
    Fresh period (times ++ rest) ↔ ∀ first ∈ rest.head?, first ≤ last + period := by
  constructor
  · intro joined first atStart
    exact (List.isChain_append.mp joined).2.2 last steady.last first atStart
  · intro soon
    refine List.isChain_append.mpr ⟨steady.inStep.fresh, fresh, ?_⟩
    intro earlier atEnd later atStart
    rw [steady.last] at atEnd
    cases atEnd
    exact soon later atStart

theorem le_of_mem_tail {first : Instant} (steady : Steady period (first :: times) last) :
    ∀ time ∈ times, first + period ≤ time := by
  intro time member
  cases times with
  | nil => cases member
  | cons next later =>
      have following := List.isChain_cons_cons.mp steady.inStep
      have rising : (next :: later).Pairwise (· ≤ ·) :=
        (following.2.imp fun _ _ next => Nat.le.intro next.symm).pairwise
      have start : next = first + period := following.1
      rcases List.mem_cons.mp member with rfl | member
      · exact Nat.le_of_eq start.symm
      · have later := List.rel_of_pairwise_cons rising member
        lia

end Steady

namespace Tenure.Parts

variable {period : Nat} {t : Tenure} {before during rest : List Instant} {last heed beat : Instant}

theorem le_last (parts : Parts period t before during last heed beat) {time : Instant}
    (member : time ∈ t.beats) (early : time ≤ heed) : time ≤ last := by
  rw [parts.beats] at member
  rcases List.mem_append.mp member with member | member
  · exact parts.before.le_last time member
  · -- Only without a period can it be one of the later beats.
    have late := parts.during.le_of_mem_tail time member
    have notLater := parts.notLater
    lia

/-- The first instant after the request is on time for the beats before it exactly when the request
was heeded at a beat, or nothing came later. -/
theorem fresh_iff (parts : Parts period t before during last heed beat)
    (fresh : Fresh period (heed :: (during ++ rest)))
    (short : rest.length ≤ 1) :
    Fresh period (t.beats ++ rest) ↔
      (heed ∈ t.beats ∨
        ∀ time ∈ t.beats ++ rest, ∃ beat ∈ t.beats, beat ≤ heed ∧ time ≤ beat + period) := by
  have lastMember : last ∈ t.beats := by
    rw [parts.beats]
    exact List.mem_append_left _ parts.before.last_mem
  have following := List.isChain_cons.mp fresh
  have joined : t.beats ++ rest = before ++ (during ++ rest) := by
    rw [parts.beats, List.append_assoc]
  rw [joined, parts.before.fresh_append_iff following.2]
  constructor
  · intro soon
    cases split : during with
    | cons next later =>
        -- The first beat after the request comes one period later.
        have first : next = heed + period := by
          have inStep := parts.during.inStep
          rw [split] at inStep
          exact (List.isChain_cons_cons.mp inStep).1
        have onTime : next ≤ last + period := soon next (by simp [split])
        have same : heed = last := by
          have notEarlier := parts.notEarlier
          lia
        exact Or.inl (same ▸ lastMember)
    | nil =>
        refine Or.inr fun time member => ?_
        rw [List.nil_append] at member
        rcases List.mem_append.mp member with member | member
        · refine ⟨time, ?_, ?_, Nat.le_add_right _ _⟩
          · rw [parts.beats]
            exact List.mem_append_left _ member
          · exact Nat.le_trans (parts.before.le_last time member) parts.notEarlier
        · refine ⟨last, lastMember, parts.notEarlier, soon time ?_⟩
          rw [split, List.nil_append]
          obtain ⟨only, rfl⟩ := List.length_eq_one_iff.mp
            (Nat.le_antisymm short (List.length_pos_of_mem member))
          rw [List.mem_singleton.mp member]
          rfl
  · intro heeded first atStart
    have soon : first ≤ heed + period := following.1 first atStart
    rcases heeded with onBeat | covered
    · have late := parts.le_last onBeat (Nat.le_refl heed)
      lia
    · obtain ⟨beat, member, early, near⟩ :=
        covered first (List.mem_append_right _ (List.mem_of_mem_head? atStart))
      have late := parts.le_last member early
      lia

theorem fresh_twice (parts : Parts period t before during last heed beat)
    (fresh : Fresh period (heed :: (during ++ rest))) :
    Fresh (2 * period) (t.beats ++ rest) := by
  have following := List.isChain_cons.mp fresh
  have longer : period ≤ 2 * period := by omega
  rw [parts.beats, List.append_assoc]
  refine List.isChain_append.mpr
    ⟨parts.before.inStep.fresh.weaken longer, Fresh.weaken following.2 longer, ?_⟩
  intro earlier atEnd later atStart
  rw [parts.before.last] at atEnd
  cases atEnd
  have soon : later ≤ heed + period := following.1 later atStart
  have notLater := parts.notLater
  lia

end Tenure.Parts

/-- A tenure with what has passed since its last beat: in one rhythm, or in two that a request
parts. -/
def Tenure.Pulses (period : Nat) (t : Tenure) (rest : List Instant) : Prop :=
  (t.heeded = [] ∧ Fresh period (t.beats ++ rest)) ∨
    ∃ before during last heed beat, t.Parts period before during last heed beat ∧
      Fresh period (heed :: (during ++ rest))

theorem pulses_of_leads {c : Candidate} {t : Tenure} {now renewedAt beat : Instant}
    (leads : t.Leads c renewedAt beat) (soon : now ≤ beat + c.retryPeriod.nanos) :
    t.Pulses c.retryPeriod.nanos [now] :=
  Or.inl ⟨leads.unheeded, leads.steady.fresh_snoc soon⟩

theorem pulses_of_lingers {c : Candidate} {t : Tenure} {now renewedAt beat : Instant}
    (lingers : t.Lingers c renewedAt beat) (soon : now ≤ beat + c.retryPeriod.nanos) :
    t.Pulses c.retryPeriod.nanos [now] := by
  obtain ⟨before, during, last, heed, parts⟩ := lingers.parts
  exact Or.inr ⟨before, during, last, heed, beat, parts, parts.during.fresh_snoc soon⟩

theorem pulses_of_rhythmic {period : Nat} {t : Tenure} (rhythmic : t.Rhythmic period) :
    t.Pulses period [] := by
  rcases rhythmic with ⟨unheeded, inStep⟩ | ⟨before, during, last, heed, beat, parts⟩
  · refine Or.inl ⟨unheeded, ?_⟩
    rw [List.append_nil]
    exact inStep.fresh
  · refine Or.inr ⟨before, during, last, heed, beat, parts, ?_⟩
    rw [List.append_nil]
    exact parts.during.inStep.fresh

theorem pulses_of_paces {c : Candidate} {now : Instant} {t : Tenure} {stage : Stage}
    (paces : Paces c now t stage) :
    t.Pulses c.retryPeriod.nanos (if stage.inTerm then [now] else []) := by
  cases stage with
  | fresh =>
      have fresh : t = .start := paces
      subst fresh
      exact pulses_of_rhythmic (Tenure.rhythmic_start _)
  | waiting goal =>
      cases goal with
      | acquire ticker =>
          have fresh : t = .start := paces
          subst fresh
          exact pulses_of_rhythmic (Tenure.rhythmic_start _)
      | lead ticker renewedAt =>
          obtain ⟨beat, leads, waits⟩ := paces
          exact pulses_of_leads leads waits.notLater
      | windDown ticker renewedAt =>
          obtain ⟨beat, lingers, waits⟩ := paces
          exact pulses_of_lingers lingers waits.notLater
  | reading goal _ | writing goal _ =>
      cases goal with
      | acquire ticker =>
          have fresh : t = .start := paces
          subst fresh
          exact pulses_of_rhythmic (Tenure.rhythmic_start _)
      | lead ticker renewedAt => exact pulses_of_leads paces.1 (Nat.le_add_right _ _)
      | windDown ticker renewedAt => exact pulses_of_lingers paces.1 (Nat.le_add_right _ _)
  | elected | installing => exact pulses_of_leads paces (Nat.le_add_right _ _)
  | relieving reason =>
      cases reason with
      | requested => exact pulses_of_lingers paces (Nat.le_add_right _ _)
      | lost => exact pulses_of_rhythmic paces.1
      | workEnded result => exact pulses_of_rhythmic paces
  | aborting => exact pulses_of_rhythmic paces.1
  | _ => exact pulses_of_rhythmic paces

namespace Contest

/-- The gaps between beats, the one still open included, are at most one retry period exactly when a
request to stop is heeded at a beat, or nothing comes later than one retry period after a beat that
the request did not precede. They are never longer than two. -/
theorem fresh_pulse_iff {moves : List Move} {c : Contest} {id : Nat} {m : Member}
    (run : Contest.empty.punctualPlay moves = some c) (present : c.members.get? id = some m) :
    Fresh (2 * m.run.candidate.retryPeriod.nanos) (c.pulse id m) ∧
      (Fresh m.run.candidate.retryPeriod.nanos (c.pulse id m) ↔
        ∀ heed ∈ (c.log.tenure id).heeded, heed ∈ (c.log.tenure id).beats ∨
          ∀ time ∈ c.pulse id m, ∃ beat ∈ (c.log.tenure id).beats,
            beat ≤ heed ∧ time ≤ beat + m.run.candidate.retryPeriod.nanos) := by
  have paces := paces_of_career (career_of_punctualPlay run present)
  have short : (if m.run.stage.inTerm then [c.now] else []).length ≤ 1 := by
    split
    · exact Nat.le_refl 1
    · exact Nat.zero_le 1
  rcases pulses_of_paces paces with
    ⟨unheeded, fresh⟩ | ⟨before, during, last, heed, beat, parts, fresh⟩
  · refine ⟨Fresh.weaken fresh (by omega), iff_of_true fresh ?_⟩
    rw [unheeded]
    intro heed member
    cases member
  · refine ⟨parts.fresh_twice fresh, ?_⟩
    rw [parts.heeded]
    simp only [List.mem_singleton, forall_eq]
    exact parts.fresh_iff fresh short

/-- A run wins its lease at once, is asked to stop after one and a half seconds, and keeps the lease
while its work winds down. -/
def askedBetweenBeats : List Move :=
  [.start 1 .tenSeconds, .act 1 (.ofUnix 0 0), .act 1 (.ofUnix 0 0), .call 1, .call 1,
    .act 1 (.ofUnix 0 0), .act 1 (.ofUnix 0 0), .pass (.ofMillis 1500), .cancel 1,
    .act 1 (.ofUnix 0 0), .act 1 (.ofUnix 0 0), .pass (.ofSeconds 2), .act 1 (.ofUnix 3 0)]

theorem played_askedBetweenBeats :
    ((Contest.empty.punctualPlay askedBetweenBeats).bind fun c =>
      (c.members.get? 1).map fun m =>
        (m.run.candidate, m.run.stage.inTerm, (c.log.tenure 1).beats)) =
      some (.tenSeconds, true, [0, 3500000000]) := by
  decide +kernel

theorem fresh_pulse_iff_askedBetweenBeats :
    ∃ c m, Contest.empty.punctualPlay askedBetweenBeats = some c ∧ c.members.get? 1 = some m ∧
      Fresh (2 * m.run.candidate.retryPeriod.nanos) (c.pulse 1 m) ∧
      (Fresh m.run.candidate.retryPeriod.nanos (c.pulse 1 m) ↔
        ∀ heed ∈ (c.log.tenure 1).heeded, heed ∈ (c.log.tenure 1).beats ∨
          ∀ time ∈ c.pulse 1 m, ∃ beat ∈ (c.log.tenure 1).beats,
            beat ≤ heed ∧ time ≤ beat + m.run.candidate.retryPeriod.nanos) := by
  obtain ⟨c, run, rest⟩ := Option.bind_eq_some_iff.mp played_askedBetweenBeats
  obtain ⟨m, present, -⟩ := Option.map_eq_some_iff.mp rest
  exact ⟨c, m, run, present, fresh_pulse_iff run present⟩

/-- The attempt after the request comes three and a half seconds after the lease was won. -/
theorem askedBetweenBeats_not_fresh :
    ∃ c m, Contest.empty.punctualPlay askedBetweenBeats = some c ∧ c.members.get? 1 = some m ∧
      0 < m.run.candidate.retryPeriod.nanos ∧ m.run.stage.inTerm = true ∧
      ¬ Fresh m.run.candidate.retryPeriod.nanos (c.log.tenure 1).beats := by
  obtain ⟨c, run, rest⟩ := Option.bind_eq_some_iff.mp played_askedBetweenBeats
  obtain ⟨m, present, played⟩ := Option.map_eq_some_iff.mp rest
  obtain ⟨candidate, inTerm, beats⟩ : m.run.candidate = .tenSeconds ∧ m.run.stage.inTerm = true ∧
      (c.log.tenure 1).beats = [0, 3500000000] := by
    simpa only [Prod.mk.injEq] using played
  refine ⟨c, m, run, present, ?_, inTerm, ?_⟩
  · rw [candidate]
    decide
  · rw [candidate, beats]
    decide

end Contest

end LeaderLease
