import LeaderLease.Proofs.Exclusion
import LeaderLease.Proofs.Handover

/-!
# Who shows that it leads

A member shows that it leads from the step in which its run proclaims it to the one in which the run
retires. It hands its lease back before it retires, so for the steps in between it shows that it
leads and does not: it lags. In a contest for a key at most one member leads; and at most one shows
it, exactly when no member lags while another one shows that it leads.
-/

set_option autoImplicit false

namespace LeaderLease

/-- A member whose run is at the stage may show that it leads. -/
def Stage.mayLead : Stage → Bool
  | .elected | .installing | .relieving _ | .aborting | .releasing _ _ _ | .retiring _
  | .broken => true
  | .waiting goal | .reading goal _ | .writing goal _ => goal.isRenewal
  | _ => false

/-- A member that shows that it leads is at a stage that knows of it. -/
def Member.IsFrank (m : Member) : Prop := m.state = .leading → m.run.stage.mayLead = true

section Frank

variable {id : Nat} {now : Instant} {m : Member} {next : Run} {effects : List Effect}

theorem mayLead_failed {r : Run} {goal : Goal} :
    (r.failed now goal).stage.mayLead = goal.isRenewal := by
  rcases Run.failed_cases r now goal with same | ⟨renewal, same | same⟩ <;> rw [same]
  · rfl
  all_goals exact renewal.symm

theorem isFrank_act {wall : Timestamp} (acts : m.run.Acts (m.view now wall) next effects)
    (frank : m.IsFrank) : (m.after id (next, effects)).IsFrank := by
  intro leading
  rw [Member.after_run]
  cases acts with
  | refuse | begin | retire => cases leading
  | proclaim | install | installLate | linger | lingerLate | heed | notice | dismiss | withdraw
  | abort => rfl
  | finish | conclude =>
      rcases Run.handBack_cases m.run _ _ with same | ⟨e, -, -, same⟩ <;> rw [same] <;> rfl
  | @attempt goal stage =>
      rw [Member.after_state (by simp)] at leading
      have before := frank leading
      rw [stage] at before
      exact (goal.isRenewal_ticked now).trans before
  | closeFailed stage | closeAsked stage | closeLost stage | announce stage =>
      rw [Member.after_state (by simp)] at leading
      have before := frank leading
      rw [stage] at before
      cases before

theorem isFrank_read {goal : Goal} {wall : Timestamp} {answer : ReadAnswer}
    (stage : m.run.stage = .reading goal wall)
    (reads : m.run.Reads now goal wall answer next effects) (frank : m.IsFrank) :
    (m.after id (next, effects)).IsFrank := by
  intro leading
  rw [Member.after_state reads.publish] at leading
  have before := frank leading
  rw [stage] at before
  rw [Member.after_run]
  cases reads with
  | unreadable | held => exact mayLead_failed.trans before
  | absent | own | free => exact before
  | overflow => rfl

theorem isFrank_write {answer : WriteAnswer} (writes : m.run.Writes now answer next effects)
    (frank : m.IsFrank) : (m.after id (next, effects)).IsFrank := by
  intro leading
  rw [Member.after_state writes.publish] at leading
  have before := frank leading
  rw [Member.after_run]
  cases writes with
  | @succeeded goal => cases goal <;> rfl
  | failed stage =>
      rw [stage] at before
      exact mayLead_failed.trans before
  | released | kept | exhausted => rfl

theorem isFrank_of_career {log : Log} (career : Career id now m log) : m.IsFrank := by
  induction career with
  | start unknown => intro leading; cases leading
  | turn before step ih =>
      cases step with
      | act acts => exact isFrank_act acts ih
      | read stage reads => exact isFrank_read stage reads ih
      | write called writes => exact isFrank_write writes ih
      | request | trigger | finish => exact ih
  | others before elsewhere ih => exact ih
  | wait before idle ih => exact ih

end Frank

/-- The run has parted with its lease, and its next step publishes that. -/
def Member.IsLagging (m : Member) : Prop := ∃ verdict, m.run.stage = .retiring verdict

namespace Contest

/-- A live member for the key shows that it leads. -/
structure ShowsLeading (c : Contest) (key : String) (id : Nat) (m : Member) : Prop where
  present : c.members.get? id = some m
  forKey : m.run.candidate.resource = key
  live : m.run.hasEnded = false
  leading : m.state = .leading

/-- No two live members show at once that they lead. -/
def AtMostOneLeads (c : Contest) (key : String) : Prop :=
  ∀ i j m n, c.ShowsLeading key i m → c.ShowsLeading key j n → i = j

section Leading

variable {key : String} {taken : List (String × Timestamp)} {c : Contest} {id : Nat} {m : Member}

theorem ShowsLeading.keepsLease_or_isLagging (shows : c.ShowsLeading key id m)
    (reached : c.Reached) : m.run.stage.keepsLease = true ∨ m.IsLagging := by
  obtain ⟨moves, run⟩ := reached
  have frank := isFrank_of_career (career_of_punctualPlay run shows.present) shows.leading
  have live := shows.live
  cases stage : m.run.stage with
  | retiring verdict => exact .inr ⟨verdict, stage⟩
  | broken =>
      rw [Run.hasEnded, stage] at live
      cases live
  | _ =>
      rw [stage] at frank
      exact .inl frank

/-- Two members that keep the lease for one key are the same. -/
theorem keeper_unique (orderly : Orderly key taken c) {i j : Nat} {m n : Member}
    (first : c.ShowsLeading key i m) (second : c.ShowsLeading key j n)
    (keeps : m.run.stage.keepsLease = true) (keeps' : n.run.stage.keepsLease = true) : i = j := by
  refine Decidable.byContradiction fun differ => ?_
  obtain ⟨e, current, holder⟩ := holder_of_keepsLease orderly first.present first.forKey keeps
  obtain ⟨e', current', holder'⟩ := holder_of_keepsLease orderly second.present second.forKey keeps'
  have same : e = e' := Option.some.inj (current.symm.trans current')
  refine orderly.apart i j m n first.present second.present first.forKey second.forKey first.live
    second.live differ ?_
  rw [← holder, ← holder', same]

/-- In a contest for a key whoever shows that it leads has the lease in the store, or lags behind
its end; and at most one member shows it exactly when no member lags beside another that shows it. -/
theorem atMostOneLeads_iff (contested : Contested key taken c) :
    (∀ id m, c.ShowsLeading key id m →
      (∃ e, c.store.get? key = some e ∧ e.lease.holder = m.run.candidate.identity) ∨
        m.IsLagging ∧ ∀ x, (c.log.records key).getLast? = some x →
          ¬ x.Claims id m.run.candidate.identity) ∧
    (c.AtMostOneLeads key ↔ ∀ i j m n, c.ShowsLeading key i m → c.ShowsLeading key j n →
      m.IsLagging → i = j) := by
  have orderly := orderly_of_contested contested
  have reached := contested.reached
  refine ⟨fun id m shows => ?_, fun alone i j m n first second _ => alone i j m n first second,
    fun beside i j m n first second => ?_⟩
  · rcases shows.keepsLease_or_isLagging reached with keeps | lags
    · exact .inl (holder_of_keepsLease orderly shows.present shows.forKey keeps)
    · refine .inr ⟨lags, ?_⟩
      obtain ⟨moves, run⟩ := reached
      obtain ⟨verdict, stage⟩ := lags
      have named := (orderly.stands id m shows.present shows.forKey).admissible.named
      have settles := settles_of_play (play_of_punctualPlay run) shows.present named
      rw [shows.forKey] at settles
      exact settles.parted (by rw [stage]; rfl)
  · rcases first.keepsLease_or_isLagging reached with keeps | lags
    · rcases second.keepsLease_or_isLagging reached with keeps' | lags'
      · exact keeper_unique orderly first second keeps keeps'
      · exact (beside j i n m second first lags').symm
    · exact beside i j m n first second lags

end Leading

/-- The first run leads until its work ends after two seconds. It hands the lease back, and before
its next step the second run takes the lease and proclaims that it leads. -/
def proclaimedEarly : List Move :=
  [.start 1 ⟨"a", "test/lease", .ofSeconds 10, .ofSeconds 2⟩,
    .start 2 ⟨"b", "test/lease", .ofSeconds 10, .ofSeconds 2⟩,
    .act 1 (.ofUnix 0 0), .act 2 (.ofUnix 0 0), .act 1 (.ofUnix 0 0), .act 2 (.ofUnix 0 0),
    .call 1, .call 1, .call 2, .act 1 (.ofUnix 0 0), .act 1 (.ofUnix 0 0),
    .pass (.ofSeconds 2), .finish 1 .done, .act 1 (.ofUnix 2 0), .act 1 (.ofUnix 2 0), .call 1,
    .act 2 (.ofUnix 2 0), .call 2, .call 2, .act 2 (.ofUnix 2 0)]

theorem played_proclaimedEarly :
    ∃ taken c m n, Contested "test/lease" taken c ∧ c.ShowsLeading "test/lease" 1 m ∧
      c.ShowsLeading "test/lease" 2 n ∧ m.IsLagging ∧ n.run.stage = .installing := by
  have played : ((empty.contend? "test/lease" [] proclaimedEarly).bind fun result =>
      (result.2.members.get? 1).bind fun m => (result.2.members.get? 2).map fun n =>
        ((m.run.candidate.resource, m.run.stage, m.state),
          (n.run.candidate.resource, n.run.stage, n.state))) =
      some (("test/lease", .retiring .stopped, .leading),
        ("test/lease", .installing, .leading)) := by
    decide +kernel
  obtain ⟨⟨taken, c⟩, run, rest⟩ := Option.bind_eq_some_iff.mp played
  obtain ⟨m, first, rest⟩ := Option.bind_eq_some_iff.mp rest
  obtain ⟨n, second, found⟩ := Option.map_eq_some_iff.mp rest
  simp only [Prod.mk.injEq] at found
  obtain ⟨⟨forKey, lags, leading⟩, forKey', stage, leading'⟩ := found
  have live : m.run.hasEnded = false := by rw [Run.hasEnded, lags]
  have live' : n.run.hasEnded = false := by rw [Run.hasEnded, stage]
  exact ⟨taken, c, m, n, contested_of_contend? .empty run, ⟨first, forKey, live, leading⟩,
    ⟨second, forKey', live', leading'⟩, ⟨_, lags⟩, stage⟩

/-- The store names the second run already while the first still shows that it leads. -/
theorem atMostOneLeads_iff_proclaimedEarly :
    ∃ taken c m n e, Contested "test/lease" taken c ∧ c.ShowsLeading "test/lease" 1 m ∧
      c.ShowsLeading "test/lease" 2 n ∧ c.store.get? "test/lease" = some e ∧
      e.lease.holder = n.run.candidate.identity ∧
      ¬ ∀ i j m n, c.ShowsLeading "test/lease" i m → c.ShowsLeading "test/lease" j n →
        m.IsLagging → i = j := by
  obtain ⟨taken, c, m, n, contested, first, second, lags, stage⟩ := played_proclaimedEarly
  obtain ⟨leads, alone⟩ := atMostOneLeads_iff contested
  rcases leads 2 n second with ⟨e, current, holder⟩ | ⟨⟨verdict, parted⟩, -⟩
  · refine ⟨taken, c, m, n, e, contested, first, second, current, holder, fun beside => ?_⟩
    have same := alone.mpr beside 1 2 m n first second
    cases same
  · cases stage.symm.trans parted

theorem proclaimedEarly_not_atMostOneLeads :
    ∃ taken c, Contested "test/lease" taken c ∧ ¬ c.AtMostOneLeads "test/lease" := by
  obtain ⟨taken, c, m, n, contested, first, second, -⟩ := played_proclaimedEarly
  refine ⟨taken, c, contested, fun alone => ?_⟩
  have same := alone 1 2 m n first second
  cases same

end Contest

end LeaderLease
