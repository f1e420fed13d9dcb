import LeaderLease.Election.Attempt
import LeaderLease.Proofs.Breakdown

/-!
# When an attempt succeeds

An attempt with nobody in between stores a lease of the next version, waits for another's lease, or
takes a sum out of its range. `Run.Attempts` lists these ways, each with the condition under which
it is taken. So an attempt on an entry that it has room for succeeds exactly if the candidate may
take the lease (`Run.accords_attempt`), and without that room the run breaks
(`Run.broken_attempt_iff`). `Contest.play_attempt` finds the attempt in a contest, as one or two
calls of one member in a row.
-/

set_option autoImplicit false

namespace LeaderLease

namespace MemoryStore

variable {s : MemoryStore} {key : String} {e : Entry}

theorem create_of_absent (absent : s.get? key = none) (l : Lease) :
    s.create key l = (.ok ⟨1, l⟩, s.put key ⟨1, l⟩) := by
  rw [create, absent]

theorem update_of_found (found : s.get? key = some e) (l : Lease) :
    s.update key e.version l =
      if e.version + 1 < Entry.versionLimit then
        (.ok ⟨e.version + 1, l⟩, s.put key ⟨e.version + 1, l⟩)
      else (.error .exhausted, s) := by
  simp only [update, found, if_true, Entry.nextVersion?]
  by_cases room : e.version + 1 < Entry.versionLimit
  · simp only [if_pos room]
  · simp only [if_neg room]

end MemoryStore

/-- The entry that the candidate stores in an attempt, given what was stored before. -/
structure Candidate.Takes (c : Candidate) (wall : Timestamp) (before : Option Entry) (e : Entry) :
    Prop where
  holder : e.lease.holder = c.identity
  duration : e.lease.duration = c.ttl
  renewed : e.lease.renewed = wall
  created : before = none → e.version = 1 ∧ e.lease.acquired = wall ∧ e.lease.transitions = 0
  raised : ∀ old, before = some old → e.version = old.version + 1
  kept : ∀ old, before = some old → old.lease.holder = c.identity ∧ c.identity ≠ "" →
    e.lease.acquired = old.lease.acquired ∧ e.lease.transitions = old.lease.transitions
  taken : ∀ old, before = some old → ¬ (old.lease.holder = c.identity ∧ c.identity ≠ "") →
    e.lease.acquired = wall ∧ e.lease.transitions = old.lease.transitions + 1

namespace Candidate

variable (c : Candidate) (wall : Timestamp) {old : Entry}

theorem takes_first : c.Takes wall none ⟨1, c.firstLease wall⟩ where
  holder := rfl
  duration := rfl
  renewed := rfl
  created _ := ⟨rfl, rfl, rfl⟩
  raised := nofun
  kept := nofun
  taken := nofun

theorem takes_renewed (mine : old.lease.isHeldBy c.identity = true) :
    c.Takes wall (some old) ⟨old.version + 1, c.renewedLease wall old.lease⟩ where
  holder := rfl
  duration := rfl
  renewed := rfl
  created := nofun
  raised := by
    rintro _ ⟨⟩
    rfl
  kept := by
    rintro _ ⟨⟩ -
    exact ⟨rfl, rfl⟩
  taken := by
    rintro _ ⟨⟩ notMine
    exact absurd ((Lease.isHeldBy_iff _ _).mp mine) notMine

theorem takes_taken (notMine : old.lease.isHeldBy c.identity = false) :
    c.Takes wall (some old) ⟨old.version + 1, c.takenLease wall (old.lease.transitions + 1)⟩ where
  holder := rfl
  duration := rfl
  renewed := rfl
  created := nofun
  raised := by
    rintro _ ⟨⟩
    rfl
  kept := by
    rintro _ ⟨⟩ mine
    cases ((Lease.isHeldBy_iff _ _).mpr mine).symm.trans notMine
  taken := by
    rintro _ ⟨⟩ -
    exact ⟨rfl, rfl⟩

end Candidate

namespace Sighting

/-- Since when the lease that an attempt leaves behind has stood for the candidate, who finds what was
stored before it first. -/
def standsAfter (s : Sighting) (now : Instant) (before : Option Entry) (left : Lease) : Instant :=
  match before with
  | some old => if old.lease = left then s.standsSince now left else now
  | none => s.standsSince now left

theorem since_observe_observe (s : Sighting) (now : Instant) (old new : Entry) :
    ((s.observe now old).observe now new).since = s.standsAfter now (some old) new.lease := by
  rw [since_observe, standsSince, standsAfter, since_observe]
  by_cases same : old.lease = new.lease
  · simp [observe, same]
  · simp [observe, same]

end Sighting

namespace Run

variable {r : Run} {now : Instant} {goal : Goal} {wall : Timestamp} {store : MemoryStore}

/-- The numbers in an entry leave room for an attempt on it: for the instant at which the lease runs
out, for one more term, and for one more version. -/
structure HasRoom (r : Run) (now : Instant) (e : Entry) : Prop where
  timed : ¬ r.Mistimes now e
  counted : ¬ r.Miscounts now e
  versioned : r.mayTake now (some e) → e.version + 1 < Entry.versionLimit

/-- The ways in which an attempt goes. -/
inductive Attempts (r : Run) (now : Instant) (goal : Goal) (wall : Timestamp)
    (store : MemoryStore) : AttemptResult → Prop where
  | stores {e : Entry} {seen : Run} {effects : List Effect}
      (may : r.mayTake now (store.get? r.candidate.resource))
      (room : ∀ old, store.get? r.candidate.resource = some old → r.HasRoom now old)
      (takes : r.candidate.Takes wall (store.get? r.candidate.resource) e)
      (remembers : seen.sighting.seen = some e)
      (dates : seen.sighting.since =
        r.sighting.standsAfter now (store.get? r.candidate.resource) e.lease) :
      Attempts r now goal wall store
        ⟨true, seen.succeeded now goal, effects, store.put r.candidate.resource e⟩
  | waits {e : Entry} (found : store.get? r.candidate.resource = some e)
      (room : r.HasRoom now e) (mayNot : ¬ r.mayTake now (some e)) :
      Attempts r now goal wall store
        ⟨false, (r.observe now e).1.failed now goal, (r.observe now e).2, store⟩
  | breaks {e : Entry} {seen : Run} {effects : List Effect}
      (found : store.get? r.candidate.resource = some e) (noRoom : ¬ r.HasRoom now e) :
      Attempts r now goal wall store ⟨false, seen.goTo .broken, effects, store⟩

/-! ## The two halves of an attempt -/

theorem failed_not_writing (r : Run) (now : Instant) (goal goal' : Goal) (w : Write) :
    (r.failed now goal).stage ≠ .writing goal' w := by
  rcases failed_cases r now goal with same | ⟨-, same | same⟩ <;> rw [same] <;> nofun

/-- An attempt is over after the read unless that leads to a write. -/
theorem attempt_of_read {next : Run} {effects : List Effect}
    (read : r.receiveRead now (.ok (store.get? r.candidate.resource)) = (next, effects))
    (unwritten : ∀ goal w, next.stage ≠ .writing goal w) :
    r.attempt now store = ⟨false, next, effects, store⟩ := by
  simp only [attempt, read]

theorem attempt_of_write {next : Run} {effects : List Effect} {w : Write}
    (read : r.receiveRead now (.ok (store.get? r.candidate.resource)) = (next, effects))
    (stage : next.stage = .writing goal w) :
    r.attempt now store =
      ⟨(store.write r.candidate.resource w).1.toBool,
        (next.receiveWrite now (store.write r.candidate.resource w).1).1,
        effects ++ (next.receiveWrite now (store.write r.candidate.resource w).1).2,
        (store.write r.candidate.resource w).2⟩ := by
  simp only [attempt, read, stage]

theorem attempts_of_create
    (read : r.receiveRead now (.ok (store.get? r.candidate.resource)) =
      (r.goTo (.writing goal (.create (r.candidate.firstLease wall))), []))
    (absent : store.get? r.candidate.resource = none) :
    r.Attempts now goal wall store (r.attempt now store) := by
  have created := MemoryStore.create_of_absent absent (r.candidate.firstLease wall)
  rw [attempt_of_write read rfl]
  simp only [MemoryStore.write, created, receiveWrite, goTo, afterWrite]
  refine .stores ?_ ?_ ?_ rfl ?_
  · rw [absent]
    exact trivial
  · rw [absent]
    rintro _ ⟨⟩
  · rw [absent]
    exact r.candidate.takes_first wall
  · rw [absent]
    exact r.sighting.since_observe now ⟨1, r.candidate.firstLease wall⟩

/-- The entry that was read is still there when it is replaced, so only its version can fail. -/
theorem attempts_of_update {next : Run} {effects : List Effect} {e : Entry} {l : Lease}
    (read : r.receiveRead now (.ok (store.get? r.candidate.resource)) = (next, effects))
    (stage : next.stage = .writing goal (.update e.version l))
    (looked : next.sighting = r.sighting.observe now e)
    (found : store.get? r.candidate.resource = some e)
    (may : r.mayTake now (some e)) (timed : ¬ r.Mistimes now e) (counted : ¬ r.Miscounts now e)
    (takes : r.candidate.Takes wall (some e) ⟨e.version + 1, l⟩) :
    r.Attempts now goal wall store (r.attempt now store) := by
  have updated := MemoryStore.update_of_found found l
  rw [attempt_of_write read stage]
  by_cases room : e.version + 1 < Entry.versionLimit
  · rw [if_pos room] at updated
    simp only [MemoryStore.write, updated, receiveWrite, stage, afterWrite]
    refine .stores (found ▸ may) ?_ (found ▸ takes) rfl ?_
    · intro old same
      cases Option.some.inj (found.symm.trans same)
      exact ⟨timed, counted, fun _ => room⟩
    · rw [observe, looked, found]
      exact r.sighting.since_observe_observe now e ⟨e.version + 1, l⟩
  · rw [if_neg room] at updated
    simp only [MemoryStore.write, updated, receiveWrite, stage, afterWrite]
    exact .breaks found fun fits => room (fits.versioned may)

theorem attempts_of_reading (stage : r.stage = .reading goal wall) (now : Instant)
    (store : MemoryStore) : r.Attempts now goal wall store (r.attempt now store) := by
  have reads := reads_of_receiveRead stage now (.ok (store.get? r.candidate.resource))
  have breaking : (r.receiveRead now (.ok (store.get? r.candidate.resource))).1.stage = .broken ↔
      r.Falters now (store.get? r.candidate.resource) := broken_read_iff stage _
  simp only [Falters, stage] at breaking
  cases read : r.receiveRead now (.ok (store.get? r.candidate.resource)) with
  | mk next effects =>
  rw [read] at reads breaking
  cases found : store.get? r.candidate.resource with
  | none =>
      rw [found] at reads
      cases reads with
      | absent => exact attempts_of_create read found
  | some e =>
      rw [found] at reads
      simp only [found, Option.some.injEq, exists_eq_left'] at breaking
      have inRange : next.stage ≠ .broken → ¬ r.Mistimes now e ∧ ¬ r.Miscounts now e := by
        intro whole
        exact not_or.mp fun beyond => whole (breaking.mpr beyond)
      cases reads with
      | held e other live =>
          obtain ⟨timed, counted⟩ := inRange (not_broken_failed _ now goal)
          have mayNot : ¬ r.mayTake now (some e) := by
            rintro (nobody | mine | spent)
            · exact other.1 nobody
            · exact other.2 mine
            · rw [← Sighting.since_observe] at spent
              exact Nat.not_le.mpr live spent
          rw [attempt_of_read read (failed_not_writing _ now goal)]
          exact .waits found ⟨timed, counted, fun may => absurd may mayNot⟩ mayNot
      | own e mine =>
          obtain ⟨timed, counted⟩ := inRange (by rintro ⟨⟩)
          have holder := ((Lease.isHeldBy_iff _ _).mp mine).1
          exact attempts_of_update read rfl rfl found (.inr (.inl holder)) timed counted
            (r.candidate.takes_renewed wall mine)
      | free e notMine spent next =>
          obtain ⟨timed, counted⟩ := inRange (by rintro ⟨⟩)
          cases Lease.eq_of_nextTransitions? next
          have may : r.mayTake now (some e) := by
            by_cases nobody : e.lease.holder = ""
            · exact .inl nobody
            by_cases same : e.lease.holder = r.candidate.identity
            · exact .inr (.inl same)
            have stood := spent nobody same
            rw [Sighting.since_observe] at stood
            exact .inr (.inr stood)
          exact attempts_of_update read rfl rfl found may timed counted
            (r.candidate.takes_taken wall notMine)
      | overflow e =>
          rw [attempt_of_read read (by rintro _ _ ⟨⟩)]
          refine .breaks found fun room => ?_
          rcases breaking.mp rfl with late | many
          · exact room.timed late
          · exact room.counted many

/-! ## What an attempt comes to -/

/-- How a run goes on after a failed attempt does not depend on what it has seen. -/
theorem failed_stage {r s : Run} (same : s.candidate = r.candidate) (now : Instant) (goal : Goal) :
    (s.failed now goal).stage = (r.failed now goal).stage := by
  cases goal with
  | acquire ticker => rfl
  | lead ticker renewedAt | windDown ticker renewedAt =>
      simp only [failed, same]
      split <;> rfl

theorem not_broken_succeeded (r : Run) (now : Instant) (goal : Goal) :
    (r.succeeded now goal).stage ≠ .broken := by
  cases goal <;> nofun

theorem broken_attempt_iff (stage : r.stage = .reading goal wall) :
    (r.attempt now store).run.stage = .broken ↔
      ∃ e, store.get? r.candidate.resource = some e ∧ ¬ r.HasRoom now e := by
  have went := attempts_of_reading stage now store
  generalize r.attempt now store = result at went ⊢
  cases went with
  | @stores e seen effects may room =>
      simp only [not_broken_succeeded, false_iff]
      rintro ⟨old, found, noRoom⟩
      exact noRoom (room old found)
  | @waits e found room =>
      simp only [not_broken_failed, false_iff]
      rintro ⟨old, same, noRoom⟩
      cases Option.some.inj (found.symm.trans same)
      exact noRoom room
  | @breaks e seen effects found noRoom => exact ⟨fun _ => ⟨e, found, noRoom⟩, fun _ => rfl⟩

end Run

/-- The result of an attempt accords with what was stored before it, and the run goes on by it. -/
structure AttemptResult.Accords (result : AttemptResult) (r : Run) (now : Instant) (goal : Goal)
    (wall : Timestamp) (store : MemoryStore) : Prop where
  succeeded : result.succeeded = true ↔ r.mayTake now (store.get? r.candidate.resource)
  stored : result.succeeded = true → ∃ e,
    r.candidate.Takes wall (store.get? r.candidate.resource) e ∧
      result.store = store.put r.candidate.resource e
  unchanged : result.succeeded = false → result.store = store
  remembered : result.run.sighting.seen = result.store.get? r.candidate.resource
  dated : ∀ e, result.store.get? r.candidate.resource = some e → result.run.sighting.since =
    r.sighting.standsAfter now (store.get? r.candidate.resource) e.lease
  goesOn : result.run.stage =
    (if result.succeeded then r.succeeded now goal else r.failed now goal).stage

namespace Run

variable {r : Run} {now : Instant} {goal : Goal} {wall : Timestamp} {store : MemoryStore}

/-- An attempt succeeds exactly if the candidate may take the lease; it then stores the lease of its
own term, and otherwise changes nothing. -/
theorem accords_attempt (stage : r.stage = .reading goal wall)
    (room : ∀ e, store.get? r.candidate.resource = some e → r.HasRoom now e) :
    (r.attempt now store).Accords r now goal wall store := by
  have went := attempts_of_reading stage now store
  generalize r.attempt now store = result at went ⊢
  cases went with
  | @stores e seen effects may _ takes remembers dates =>
      refine ⟨⟨fun _ => may, fun _ => rfl⟩, fun _ => ⟨e, takes, rfl⟩, nofun, ?_, ?_, ?_⟩
      · rw [succeeded_sighting, remembers, Table.get?_put_self]
      · intro left stored
        cases Option.some.inj ((Table.get?_put_self _ _ _).symm.trans stored)
        rw [succeeded_sighting, dates]
      · cases goal <;> rfl
  | @waits e found _ mayNot =>
      refine ⟨⟨nofun, fun may => absurd (found ▸ may) mayNot⟩, nofun, fun _ => rfl, ?_, ?_, ?_⟩
      · rw [failed_sighting, found]
        rfl
      · intro left stored
        cases Option.some.inj (found.symm.trans stored)
        rw [failed_sighting, found, Sighting.standsAfter, if_pos rfl]
        exact r.sighting.since_observe now e
      · have same : (r.observe now e).1.candidate = r.candidate := rfl
        exact failed_stage same now goal
  | breaks found noRoom => exact absurd (room _ found) noRoom

/-- Another's lease of ten seconds, seen since the clock's origin. -/
def contended : Entry := ⟨3, ⟨"a", .ofSeconds 10, .ofUnix 0 0, .ofUnix 5 0, 4⟩⟩

/-- The same lease, renewed by its holder since then. -/
def prolonged : Entry := ⟨4, ⟨"a", .ofSeconds 10, .ofUnix 0 0, .ofUnix 7 0, 4⟩⟩

def contender : Run :=
  ⟨⟨"b", "test/lease", .ofSeconds 30, .ofSeconds 2⟩, ⟨some contended, 0, "a"⟩,
    .reading (.acquire (.immediate 0 (.ofSeconds 2))) (.ofUnix 10 0)⟩

theorem contender_hasRoom {now : Instant} {e : Entry} (short : e.lease.duration = .ofSeconds 10)
    (few : e.lease.transitions = 4) (young : e.version < 5) (early : now ≤ Instant.ofMillis 10000) :
    contender.HasRoom now e := by
  have stood : contender.sighting.standsSince now e.lease ≤ Instant.ofMillis 10000 := by
    unfold Sighting.standsSince
    dsimp only [contender]
    split
    · exact Nat.zero_le _
    · exact early
  refine ⟨fun ⟨_, _, late⟩ => ?_, fun ⟨_, _, many⟩ => ?_, fun _ => ?_⟩
  · rw [short] at late
    have soon : Instant.ofMillis 10000 + (Duration.ofSeconds 10).nanos < Instant.limit := by decide
    exact absurd (Nat.le_trans late (Nat.add_le_add_right stood _)) (Nat.not_le.mpr soon)
  · rw [few] at many
    exact absurd many (by decide)
  · exact Nat.lt_of_lt_of_le (Nat.succ_lt_succ young) (by decide)

/-- The instant at which the lease runs out is the first at which it can be taken. If the lease has
changed by then it has only stood since that instant, and cannot be taken at it. -/
theorem accords_attempt_contender :
    let store := Table.empty.put "test/lease" contended
    let changed := Table.empty.put "test/lease" prolonged
    let expiry := Instant.ofMillis 10000
    (contender.attempt expiry store).Accords contender expiry
        (.acquire (.immediate 0 (.ofSeconds 2))) (.ofUnix 10 0) store ∧
      (contender.attempt expiry store).succeeded = true ∧
      (contender.attempt (expiry - 1) store).succeeded = false ∧
      (contender.attempt (expiry - 1) store).run.sighting.since = 0 ∧
      (contender.attempt expiry changed).succeeded = false ∧
      (contender.attempt expiry changed).run.sighting.since = expiry := by
  intro store changed expiry
  have held : store.get? contender.candidate.resource = some contended := Table.get?_put_self _ _ _
  have renewed : changed.get? contender.candidate.resource = some prolonged :=
    Table.get?_put_self _ _ _
  have room : ∀ now e, now ≤ expiry → store.get? contender.candidate.resource = some e →
      contender.HasRoom now e := by
    intro now e early found
    cases Option.some.inj (held.symm.trans found)
    exact contender_hasRoom rfl rfl (by decide) early
  have takes := accords_attempt rfl fun e => room expiry e (Nat.le_refl _)
  have waits := accords_attempt rfl fun e => room (expiry - 1) e (Nat.sub_le _ _)
  have starts : (contender.attempt expiry changed).Accords contender expiry
      (.acquire (.immediate 0 (.ofSeconds 2))) (.ofUnix 10 0) changed := by
    refine accords_attempt rfl fun e found => ?_
    cases Option.some.inj (renewed.symm.trans found)
    exact contender_hasRoom rfl rfl (by decide) (Nat.le_refl _)
  have refused : (contender.attempt (expiry - 1) store).succeeded = false := by
    refine Bool.eq_false_iff.mpr fun succeeded => ?_
    rcases waits.succeeded.mp succeeded with nobody | mine | spent
    · exact absurd nobody (by decide)
    · exact absurd mine (by decide)
    · exact absurd spent (by decide)
  have fresh : (contender.attempt expiry changed).succeeded = false := by
    refine Bool.eq_false_iff.mpr fun succeeded => ?_
    rcases starts.succeeded.mp succeeded with nobody | mine | spent
    · exact absurd nobody (by decide)
    · exact absurd mine (by decide)
    · exact absurd spent (by decide)
  refine ⟨takes, takes.succeeded.mpr (.inr (.inr (by decide))), refused, ?_, fresh, ?_⟩
  · have since := waits.dated contended (by rw [waits.unchanged refused, held])
    rw [since, held]
    decide
  · have since := starts.dated prolonged (by rw [starts.unchanged fresh, renewed])
    rw [since, renewed]
    decide

end Run

/-! ## Attempts in a contest -/

namespace Contest

variable {c : Contest} {id : Nat} {m : Member} {goal : Goal} {wall : Timestamp}

theorem get?_settle (c : Contest) (id : Nat) (m : Member) (step : Run × List Effect) :
    (c.settle id m step).members.get? id = some (m.after id step) := by
  simp only [settle, note, put, Table.get?_put_self, Member.after]

theorem step_read (present : c.members.get? id = some m)
    (stage : m.run.stage = .reading goal wall) : c.step (.call id) = some (c.read id m) := by
  have called : m.run.call? = some .get := by simp only [Run.call?, stage]
  simp [step, present, called]

theorem step_write {w : Write} (present : c.members.get? id = some m)
    (stage : m.run.stage = .writing goal w) : c.step (.call id) = some (c.write id m w) := by
  have called : m.run.call? = some (.write w) := by simp only [Run.call?, stage]
  simp [step, present, called]

/-- The calls of a member, with nobody in between and at one instant, are an attempt of its run. -/
theorem play_attempt (present : c.members.get? id = some m)
    (stage : m.run.stage = .reading goal wall) :
    ∃ calls next n, (∀ move ∈ calls, move = .call id) ∧ c.play calls = some next ∧
      next.now = c.now ∧ next.store = (m.run.attempt c.now c.store).store ∧
      next.members.get? id = some n ∧ n.run = (m.run.attempt c.now c.store).run := by
  have reading := step_read present stage
  cases read : m.run.receiveRead c.now (.ok (c.store.get? m.run.candidate.resource)) with
  | mk next effects =>
  have seen : (c.read id m).members.get? id = some (m.after id (next, effects)) := by
    rw [← read]
    exact get?_settle _ id m _
  by_cases writes : ∃ goal w, next.stage = .writing goal w
  · obtain ⟨goal', w, written⟩ := writes
    have after : (m.after id (next, effects)).run = next := Member.after_run id m _
    have writing := step_write seen (by rw [after]; exact written)
    have same : next.candidate = m.run.candidate := by
      have reads := Run.reads_of_receiveRead stage c.now
        (.ok (c.store.get? m.run.candidate.resource))
      rw [read] at reads
      exact reads.candidate
    refine ⟨[.call id, .call id], (c.read id m).write id (m.after id (next, effects)) w, _,
      by simp, ?_, rfl, ?_, get?_settle _ id _ _, ?_⟩
    · simp only [play, reading, writing, Option.bind_some]
    · rw [Run.attempt_of_write read written]
      simp only [write, settle, note, put, after, same]
      rfl
    · rw [Run.attempt_of_write read written, Member.after_run]
      simp only [after, same]
      rfl
  · have unwritten : ∀ goal w, next.stage ≠ .writing goal w :=
      fun goal w written => writes ⟨goal, w, written⟩
    refine ⟨[.call id], c.read id m, _, by simp, ?_, rfl, ?_, seen, ?_⟩
    · simp only [play, reading, Option.bind_some]
    · rw [Run.attempt_of_read read unwritten]
      rfl
    · rw [Run.attempt_of_read read unwritten, Member.after_run]

end Contest

end LeaderLease
