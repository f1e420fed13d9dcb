import LeaderLease.Proofs.Dealings

/-!
# One term

The records of a key show whether a run led for one term: all that it wrote under its name after the
first of its records carries the acquisition of that record, and the lease stayed with its name in
between. A run keeps to this as long as others leave its lease alone, and only so long: a run that
leads takes a lease that was released or has run out as one that acquires does.
`oneTerm_iff_leftAlone` proves it for any moves in any order.
-/

set_option autoImplicit false

namespace LeaderLease

/-- The record says that the identity holds the lease. -/
def Record.Names (x : Record) (identity : String) : Prop :=
  x.entry.lease.isHeldBy identity = true

/-- The record by which a member won its lease: the first that it stored. -/
structure Wins (records : List Record) (id : Nat) (first : Record) : Prop where
  member : first ∈ records
  author : first.author = some id
  least : ∀ x ∈ records, x.author = some id → first.entry.version ≤ x.entry.version

/-- Whatever the member stored under its name carries the acquisition by which it won, and no record
in between names anybody else. -/
def OneTerm (records : List Record) (id : Nat) (identity : String) : Prop :=
  ∀ first last, Wins records id first → last ∈ records → last.author = some id →
    last.Names identity →
      last.entry.lease.acquired = first.entry.lease.acquired ∧
      last.entry.lease.transitions = first.entry.lease.transitions ∧
      ∀ x ∈ records, first.entry.version ≤ x.entry.version →
        x.entry.version ≤ last.entry.version → x.Names identity

/-- What others stored between records of the member leaves the lease with its name, and with the
acquisition by which it won if the member stores next. -/
def LeftAlone (records : List Record) (id : Nat) (identity : String) : Prop :=
  ∀ first last, Wins records id first → last ∈ records → last.author = some id →
    last.Names identity →
      ∀ x ∈ records, x.author ≠ some id → first.entry.version < x.entry.version →
        x.entry.version < last.entry.version → x.Names identity ∧
          (x.entry.version + 1 = last.entry.version →
            x.entry.lease.acquired = first.entry.lease.acquired ∧
            x.entry.lease.transitions = first.entry.lease.transitions)

/-- The lease was handed back, or the run has nothing more to do with it. -/
def Stage.isOver : Stage → Bool
  | .retiring _ | .closing _ | .announcing | .ended _ | .broken => true
  | _ => false

/-- What a run stored: renewals keep the acquisition that they find, and a record without its name
is the last. -/
structure Run.Tells (id : Nat) (r : Run) (records : List Record) : Prop where
  renews : ∀ x ∈ records, ∀ y ∈ records, y.author = some id →
    x.entry.version + 1 = y.entry.version → x.Names r.candidate.identity →
      y.Names r.candidate.identity → y.entry.lease.acquired = x.entry.lease.acquired ∧
        y.entry.lease.transitions = x.entry.lease.transitions
  parts : ∀ x ∈ records, x.author = some id → ¬ x.Names r.candidate.identity →
    r.candidate.identity ≠ "" → r.stage.isOver = true ∧
      ∀ y ∈ records, y.author = some id → y.entry.version ≤ x.entry.version

namespace Run.Tells

variable {id : Nat} {r next : Run} {records : List Record}

theorem of_absent (absent : ∀ x ∈ records, x.author ≠ some id) : r.Tells id records where
  renews := fun _ _ y member author => absurd author (absent y member)
  parts := fun x member author => absurd author (absent x member)

theorem step (tells : r.Tells id records) (same : next.candidate = r.candidate)
    (closed : r.stage.isOver = true → next.stage.isOver = true) : next.Tells id records where
  renews := by
    rw [same]
    exact tells.renews
  parts := by
    rw [same]
    intro x member author unnamed named
    obtain ⟨ended, last⟩ := tells.parts x member author unnamed named
    exact ⟨closed ended, last⟩

theorem other {z : Record} (tells : r.Tells id records) (numbered : Numbered records)
    (version : z.entry.version = records.length + 1) (author : z.author ≠ some id) :
    r.Tells id (records ++ [z]) := by
  have own : ∀ x ∈ records ++ [z], x.author = some id → x ∈ records := by
    intro x member mine
    rcases List.mem_append.mp member with member | member
    · exact member
    · cases List.mem_singleton.mp member
      exact absurd mine author
  refine ⟨fun x first y second mine next named => ?_, fun x member mine unnamed named => ?_⟩
  · have second := own y second mine
    rcases List.mem_append.mp first with first | first
    · exact tells.renews x first y second mine next named
    · -- The record just stored has no successor.
      cases List.mem_singleton.mp first
      have bound := numbered.version_le_length second
      omega
  · obtain ⟨ended, last⟩ := tells.parts x (own x member mine) mine unnamed named
    exact ⟨ended, fun y member mine => last y (own y member mine) mine⟩

end Run.Tells

theorem names_of_holder {x : Record} {identity : String} (holder : x.entry.lease.holder = identity)
    (named : identity ≠ "") : x.Names identity :=
  (Lease.isHeldBy_iff _ _).mpr ⟨holder, named⟩

/-- A renewal keeps the acquisition of the entry that it replaces. -/
theorem Run.renews_of_plans {r : Run} {records : List Record} {w : Write} {x : Record}
    (recalls : r.Recalls records) (numbered : Numbered records)
    (called : r.call? = some (.write w)) (member : x ∈ records)
    (current : w = .update x.entry.version w.lease) (named : x.Names r.candidate.identity)
    (names : w.lease.isHeldBy r.candidate.identity = true) :
    w.lease.acquired = x.entry.lease.acquired ∧
      w.lease.transitions = x.entry.lease.transitions := by
  rcases Run.stage_of_write called with ⟨goal, stage⟩ | ⟨verdict, version, lease, stage, same⟩
  · rw [current] at stage
    obtain ⟨e, wall, seen, version, plan⟩ := Run.plans_of_update recalls.plans stage
    rw [← recalls.entry_of_version numbered seen member version.symm] at plan
    rcases plan with ⟨-, renewed⟩ | ⟨foreign, -⟩
    · rw [renewed]
      exact ⟨rfl, rfl⟩
    · exact absurd named (by rw [Record.Names, foreign]; exact Bool.false_ne_true)
  · -- A lease that is handed back names nobody.
    obtain ⟨e, wall, -, -, -, rfl⟩ := Run.plans_of_releasing recalls.plans stage
    obtain ⟨holder, nonempty⟩ := (Lease.isHeldBy_iff _ _).mp names
    rw [same] at holder
    exact absurd holder.symm nonempty

theorem Run.Tells.own {id : Nat} {r next : Run} {records : List Record} {now : Instant} {w : Write}
    {e : Entry} {effects : List Effect} (tells : r.Tells id records)
    (recalls : r.Recalls records) (numbered : Numbered records)
    (called : r.call? = some (.write w)) (writes : r.Writes now (.ok e) next effects)
    (version : e.version = records.length + 1) (stored : e.lease = w.lease)
    (current : ∀ x ∈ records, x.entry.version = records.length →
      w = .update x.entry.version w.lease) :
    next.Tells id (records ++ [⟨some id, now, e⟩]) := by
  have before : ∀ x ∈ records ++ [⟨some id, now, e⟩], x.entry.version ≤ records.length + 1 := by
    intro x member
    rcases List.mem_append.mp member with member | member
    · exact Nat.le_succ_of_le (numbered.version_le_length member)
    · cases List.mem_singleton.mp member
      exact Nat.le_of_eq version
  have working : r.stage.isOver = false := by
    rcases Run.stage_of_write called with ⟨goal, stage⟩ | ⟨verdict, count, lease, stage, -⟩ <;>
      rw [stage] <;> rfl
  refine ⟨fun x first y second mine next named names => ?_, fun x member mine unnamed named => ?_⟩
  · rw [writes.candidate] at named names
    have early : x.entry.version ≤ records.length := by
      have bound := before y second
      omega
    have first : x ∈ records := by
      rcases List.mem_append.mp first with first | first
      · exact first
      · cases List.mem_singleton.mp first
        exact absurd (version ▸ early) (Nat.not_succ_le_self _)
    rcases List.mem_append.mp second with second | second
    · exact tells.renews x first y second mine next named names
    · cases List.mem_singleton.mp second
      have last : x.entry.version = records.length := Nat.succ.inj (next.trans version)
      have renewed := Run.renews_of_plans recalls numbered called first (current x first last)
        named (stored ▸ names)
      rw [stored]
      exact renewed
  · rw [writes.candidate] at unnamed named
    rcases List.mem_append.mp member with member | member
    · -- A run that stored a record without its name writes no more.
      obtain ⟨closed, -⟩ := tells.parts x member mine unnamed named
      rw [working] at closed
      cases closed
    · cases List.mem_singleton.mp member
      refine ⟨?_, fun y member _ => version ▸ before y member⟩
      rcases Run.stage_of_write called with ⟨goal, stage⟩ | ⟨verdict, count, lease, stage, -⟩
      · have holder := Run.holder_of_plans recalls.plans stage
        rw [← stored] at holder
        exact absurd (names_of_holder holder named) unnamed
      · cases writes with
        | succeeded _ attempt => cases stage.symm.trans attempt
        | released _ handed => rfl

theorem Run.Acts.isOver {r next : Run} {v : View} {effects : List Effect}
    (acts : r.Acts v next effects) (closed : r.stage.isOver = true) :
    next.stage.isOver = true := by
  cases acts with
  | refuse | withdraw | installLate | lingerLate | abort | retire | closeFailed | closeAsked
  | closeLost | announce => rfl
  | begin stage | heed stage | notice stage | finish stage | proclaim stage | install stage
  | linger stage | dismiss stage | conclude stage | attempt stage =>
      rw [stage] at closed
      cases closed

theorem Run.Tells.dealing {id : Nat} {r next : Run} {records after : List Record}
    (tells : r.Tells id records) (recalls : r.Recalls records) (numbered : Numbered records)
    (dealing : Dealing id r records next after) : next.Tells id after := by
  cases dealing with
  | idle => exact tells
  | act acts => exact tells.step acts.candidate acts.isOver
  | read stage reads =>
      refine tells.step reads.candidate fun closed => ?_
      rw [stage] at closed
      cases closed
  | stored called writes version lease current =>
      exact tells.own recalls numbered called writes version lease current
  | refused called writes =>
      refine tells.step writes.candidate fun closed => ?_
      rcases Run.stage_of_write called with
        ⟨goal, stage⟩ | ⟨verdict, version, lease, stage, -⟩ <;>
        rw [stage] at closed <;> cases closed
  | other version author => exact tells.other numbered version author

namespace Contest

structure Tales (c : Contest) : Prop where
  chronicle : c.Chronicle
  tells : ∀ id m, c.members.get? id = some m →
    m.run.Tells id (c.log.records m.run.candidate.resource)

theorem tales_of_play {moves : List Move} {c : Contest}
    (run : Contest.empty.play moves = some c) : c.Tales where
  chronicle := chronicle_of_play run
  tells := by
    have deals : c.Deals fun id r records => r.Tells id records :=
      dealings_of_play (fun recalls numbered dealing tells => tells.dealing recalls numbered dealing)
        (fun _ _ _ _ absent => .of_absent absent) run
    exact deals.deals

end Contest

/-! ## When a run leads for one term -/

section Terms

variable {id : Nat} {r : Run} {records : List Record} {first last : Record}

theorem Run.Tells.names_of_own (tells : r.Tells id records) (member : last ∈ records)
    (mine : last.author = some id) (names : last.Names r.candidate.identity) {x : Record}
    (stored : x ∈ records) (author : x.author = some id)
    (early : x.entry.version < last.entry.version) : x.Names r.candidate.identity := by
  refine Classical.byContradiction fun unnamed => ?_
  have named := ((Lease.isHeldBy_iff _ _).mp names).2
  obtain ⟨-, latest⟩ := tells.parts x stored author unnamed named
  exact absurd (latest last member mine) (Nat.not_le.mpr early)

theorem Run.Tells.names_between (tells : r.Tells id records) (numbered : Numbered records)
    (alone : LeftAlone records id r.candidate.identity) (wins : Wins records id first)
    (member : last ∈ records) (mine : last.author = some id)
    (names : last.Names r.candidate.identity) {x : Record} (stored : x ∈ records)
    (after : first.entry.version ≤ x.entry.version)
    (early : x.entry.version ≤ last.entry.version) : x.Names r.candidate.identity := by
  rcases Nat.lt_or_eq_of_le early with early | same
  · by_cases author : x.author = some id
    · exact tells.names_of_own member mine names stored author early
    · have later : first.entry.version < x.entry.version := by
        refine Nat.lt_of_le_of_ne after fun same => author ?_
        rw [← numbered.unique wins.member stored same]
        exact wins.author
      exact (alone first last wins member mine names x stored author later early).1
  · rw [numbered.unique stored member same]
    exact names

/-- Renewals carry the acquisition on from record to record. -/
theorem Run.Tells.acquisition (tells : r.Tells id records) (numbered : Numbered records)
    (alone : LeftAlone records id r.candidate.identity) (wins : Wins records id first)
    (version : Nat) (member : last ∈ records) (atVersion : last.entry.version = version)
    (mine : last.author = some id) (names : last.Names r.candidate.identity) :
    last.entry.lease.acquired = first.entry.lease.acquired ∧
      last.entry.lease.transitions = first.entry.lease.transitions := by
  induction version using Nat.strongRecOn generalizing last with
  | ind version ih =>
      have least := wins.least last member mine
      rcases Nat.eq_or_lt_of_le least with same | later
      · rw [numbered.unique wins.member member same]
        exact ⟨rfl, rfl⟩
      · have positive := numbered.version_pos wins.member
        obtain ⟨x, stored, before⟩ := numbered.exists_version member (last.entry.version - 1)
          (by omega) (by omega)
        have next : x.entry.version + 1 = last.entry.version := by omega
        have named := tells.names_between numbered alone wins member mine names stored
          (by omega) (by omega)
        obtain ⟨acquired, transitions⟩ := tells.renews x stored last member mine next named names
        rw [acquired, transitions]
        by_cases author : x.author = some id
        · exact ih x.entry.version (by omega) stored rfl author named
        · have after : first.entry.version < x.entry.version := by
            refine Nat.lt_of_le_of_ne (by omega) fun same => author ?_
            rw [← numbered.unique wins.member stored same]
            exact wins.author
          exact (alone first last wins member mine names x stored author after (by omega)).2 next

theorem Run.Tells.oneTerm_iff (tells : r.Tells id records) (numbered : Numbered records) :
    OneTerm records id r.candidate.identity ↔ LeftAlone records id r.candidate.identity := by
  constructor
  · intro oneTerm first last wins member mine names x stored _ after early
    obtain ⟨acquired, transitions, between⟩ := oneTerm first last wins member mine names
    have named := between x stored (Nat.le_of_lt after) (Nat.le_of_lt early)
    refine ⟨named, fun next => ?_⟩
    obtain ⟨sameAcquired, sameTransitions⟩ :=
      tells.renews x stored last member mine next named names
    exact ⟨sameAcquired.symm.trans acquired, sameTransitions.symm.trans transitions⟩
  · intro alone first last wins member mine names
    obtain ⟨acquired, transitions⟩ :=
      tells.acquisition numbered alone wins last.entry.version member rfl mine names
    exact ⟨acquired, transitions, fun x stored after early =>
      tells.names_between numbered alone wins member mine names stored after early⟩

end Terms

namespace Contest

/-- A run leads for one term exactly when others leave its lease alone. -/
theorem oneTerm_iff_leftAlone {moves : List Move} {c : Contest} {id : Nat} {m : Member}
    (run : Contest.empty.play moves = some c) (present : c.members.get? id = some m) :
    OneTerm (c.log.records m.run.candidate.resource) id m.run.candidate.identity ↔
      LeftAlone (c.log.records m.run.candidate.resource) id m.run.candidate.identity := by
  have tales := tales_of_play run
  exact (tales.tells id m present).oneTerm_iff (tales.chronicle.keeps.numbered _)

/-- A run wins its lease, somebody releases it after a second, and the next attempt of the run takes
it again. -/
def releasedByAnother : List Move :=
  [.start 1 ⟨"a", "test/lease", .ofSeconds 10, .ofSeconds 2⟩, .act 1 (.ofUnix 0 0),
    .act 1 (.ofUnix 0 0), .call 1, .call 1, .act 1 (.ofUnix 0 0), .act 1 (.ofUnix 0 0),
    .pass (.ofSeconds 1),
    .foreign "test/lease" (.update 1 ⟨"", .ofSeconds 1, .ofUnix 1 0, .ofUnix 1 0, 0⟩),
    .pass (.ofSeconds 1), .act 1 (.ofUnix 2 0), .call 1, .call 1]

theorem played_releasedByAnother :
    ((Contest.empty.play releasedByAnother).bind fun c =>
      (c.members.get? 1).map fun m =>
        (m.run.candidate, decide (m.work = .running), c.log.records "test/lease")) =
      some (⟨"a", "test/lease", .ofSeconds 10, .ofSeconds 2⟩, true,
        [⟨some 1, 0, 1, ⟨"a", .ofSeconds 10, .ofUnix 0 0, .ofUnix 0 0, 0⟩⟩,
          ⟨none, 1000000000, 2, ⟨"", .ofSeconds 1, .ofUnix 1 0, .ofUnix 1 0, 0⟩⟩,
          ⟨some 1, 2000000000, 3, ⟨"a", .ofSeconds 10, .ofUnix 2 0, .ofUnix 2 0, 1⟩⟩]) := by
  decide +kernel

theorem oneTerm_iff_leftAlone_releasedByAnother :
    ∃ c m, Contest.empty.play releasedByAnother = some c ∧ c.members.get? 1 = some m ∧
      (OneTerm (c.log.records m.run.candidate.resource) 1 m.run.candidate.identity ↔
        LeftAlone (c.log.records m.run.candidate.resource) 1 m.run.candidate.identity) := by
  obtain ⟨c, run, rest⟩ := Option.bind_eq_some_iff.mp played_releasedByAnother
  obtain ⟨m, present, -⟩ := Option.map_eq_some_iff.mp rest
  exact ⟨c, m, run, present, oneTerm_iff_leftAlone run present⟩

/-- The third record names the run again, after a record that names nobody. -/
theorem releasedByAnother_not_oneTerm :
    ∃ c m, Contest.empty.play releasedByAnother = some c ∧ c.members.get? 1 = some m ∧
      m.work = .running ∧
      ¬ OneTerm (c.log.records m.run.candidate.resource) 1 m.run.candidate.identity := by
  obtain ⟨c, run, rest⟩ := Option.bind_eq_some_iff.mp played_releasedByAnother
  obtain ⟨m, present, found⟩ := Option.map_eq_some_iff.mp rest
  simp only [Prod.mk.injEq, decide_eq_true_eq] at found
  obtain ⟨candidate, working, records⟩ := found
  refine ⟨c, m, run, present, working, fun oneTerm => ?_⟩
  let first : Record := ⟨some 1, 0, 1, ⟨"a", .ofSeconds 10, .ofUnix 0 0, .ofUnix 0 0, 0⟩⟩
  let last : Record :=
    ⟨some 1, 2000000000, 3, ⟨"a", .ofSeconds 10, .ofUnix 2 0, .ofUnix 2 0, 1⟩⟩
  rw [candidate, records] at oneTerm
  obtain ⟨acquired, -, -⟩ := oneTerm first last ⟨by decide, rfl, by decide⟩ (by decide) rfl rfl
  exact absurd acquired (by decide)

end Contest

end LeaderLease
