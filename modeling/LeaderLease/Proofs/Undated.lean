import LeaderLease.Election.Contest

/-!
# Steps under two clocks

Two executions of the same moves, in which the wall clock shows different times, are compared step
by step. `OneToOne` says that stamps of one identity are equal in the one execution exactly when
they are equal in the other. Then a held lease has changed in the one exactly when it has in the
other (`Lease.Alike.eq_iff`), and that is all that a run ever asks of the times in it: there is one
lemma for each function of a run, of the store and of a contest.
-/

set_option autoImplicit false

namespace LeaderLease

/-- A time in a lease under a key, with the holder that the lease names. -/
structure Stamp where
  key : String
  holder : String
  time : Timestamp
deriving DecidableEq, Repr

/-- Stamps of the first execution are equal exactly when those of the second are. -/
def OneToOne (pairs : List (Stamp × Stamp)) : Prop :=
  ∀ p ∈ pairs, ∀ q ∈ pairs, p.1 = q.1 ↔ p.2 = q.2

instance (pairs : List (Stamp × Stamp)) : Decidable (OneToOne pairs) :=
  inferInstanceAs (Decidable (∀ p ∈ pairs, ∀ q ∈ pairs, (p.1 = q.1 ↔ p.2 = q.2)))

section Alike

variable (pairs : List (Stamp × Stamp)) (key : String)

/-- Leases that differ in their times alone, and those go together if the leases are held. -/
structure Lease.Alike (l l' : Lease) : Prop where
  holder : l.holder = l'.holder
  duration : l.duration = l'.duration
  transitions : l.transitions = l'.transitions
  acquired : l.holder ≠ "" →
    (⟨key, l.holder, l.acquired⟩, ⟨key, l.holder, l'.acquired⟩) ∈ pairs
  renewed : l.holder ≠ "" → (⟨key, l.holder, l.renewed⟩, ⟨key, l.holder, l'.renewed⟩) ∈ pairs

structure Entry.Alike (e e' : Entry) : Prop where
  version : e.version = e'.version
  lease : e.lease.Alike pairs key e'.lease

inductive Write.Alike : Write → Write → Prop where
  | create {l l' : Lease} (lease : l.Alike pairs key l') : Alike (.create l) (.create l')
  | update (version : Nat) {l l' : Lease} (lease : l.Alike pairs key l') :
      Alike (.update version l) (.update version l')

inductive Decision.Alike : Decision → Decision → Prop where
  | wait : Alike .wait .wait
  | write {w w' : Write} (alike : w.Alike pairs key w') : Alike (.write w) (.write w')
  | overflow : Alike .overflow .overflow

/-- An entry that was written, or the same error. -/
inductive Written : WriteAnswer → WriteAnswer → Prop where
  | ok {e e' : Entry} (alike : e.Alike pairs key e') : Written (.ok e) (.ok e')
  | error (err : StoreError) : Written (.error err) (.error err)

/-- Since when a lease has not changed matters only for a lease that is held. -/
structure Sighting.Alike (s s' : Sighting) : Prop where
  seen : Option.Rel (Entry.Alike pairs key) s.seen s'.seen
  since : ∀ e, s.seen = some e → e.lease.holder ≠ "" → s.since = s'.since
  reported : s.reported = s'.reported

/-- The run waits for an answer of the store. -/
def Stage.isCalling : Stage → Bool
  | .reading _ _ | .writing _ _ | .releasing _ _ _ => true
  | _ => false

def Stage.isReading : Stage → Bool
  | .reading _ _ => true
  | _ => false

inductive Stage.Alike (identity : String) : Stage → Stage → Prop where
  | same {stage : Stage} (undated : stage.isCalling = false) : Alike identity stage stage
  | reading (goal : Goal) {wall wall' : Timestamp}
      (clock : (⟨key, identity, wall⟩, ⟨key, identity, wall'⟩) ∈ pairs) :
      Alike identity (.reading goal wall) (.reading goal wall')
  | writing (goal : Goal) {w w' : Write} (write : w.Alike pairs key w') :
      Alike identity (.writing goal w) (.writing goal w')
  | releasing (verdict : Verdict) (version : Nat) {l l' : Lease} (lease : l.Alike pairs key l') :
      Alike identity (.releasing verdict version l) (.releasing verdict version l')

inductive Run.Alike : Run → Run → Prop where
  | mk (c : Candidate) {s s' : Sighting} {stage stage' : Stage}
      (sighting : s.Alike pairs c.resource s')
      (arrived : stage.Alike pairs c.resource c.identity stage') :
      Alike ⟨c, s, stage⟩ ⟨c, s', stage'⟩

inductive Call.Alike : Call → Call → Prop where
  | get : Alike .get .get
  | write {w w' : Write} (write : w.Alike pairs key w') : Alike (.write w) (.write w')

/-- Runs after a step that has the same effects. -/
def StepAlike (step step' : Run × List Effect) : Prop :=
  step.1.Alike pairs step'.1 ∧ step.2 = step'.2

def MemoryStore.Alike (store store' : MemoryStore) : Prop :=
  ∀ key, Option.Rel (Entry.Alike pairs key) (store.get? key) (store'.get? key)

end Alike

variable {pairs : List (Stamp × Stamp)} {key : String}

namespace Lease

variable {l l' k k' : Lease}

/-- Held leases are the same in the one execution exactly when they are in the other. -/
theorem Alike.eq_iff (oneToOne : OneToOne pairs) (first : l.Alike pairs key l')
    (second : k.Alike pairs key k') (held : l.holder ≠ "") : l = k ↔ l' = k' := by
  have holders : l.holder = k.holder ↔ l'.holder = k'.holder := by
    rw [first.holder, second.holder]
  constructor
  · rintro rfl
    have acquired := (oneToOne _ (first.acquired held) _ (second.acquired held)).mp rfl
    have renewed := (oneToOne _ (first.renewed held) _ (second.renewed held)).mp rfl
    cases l'
    cases k'
    simp only [Stamp.mk.injEq, true_and] at acquired renewed
    simp only [Lease.mk.injEq]
    exact ⟨first.holder.symm.trans second.holder, first.duration.symm.trans second.duration,
      acquired, renewed, first.transitions.symm.trans second.transitions⟩
  · rintro rfl
    have same := holders.mpr rfl
    have acquired := (oneToOne _ (first.acquired held) _ (second.acquired (same ▸ held))).mpr
      (by rw [same])
    have renewed := (oneToOne _ (first.renewed held) _ (second.renewed (same ▸ held))).mpr
      (by rw [same])
    cases l
    cases k
    simp only [Stamp.mk.injEq, true_and] at acquired renewed
    simp only [Lease.mk.injEq]
    exact ⟨same, first.duration.trans second.duration.symm, acquired.2, renewed.2,
      first.transitions.trans second.transitions.symm⟩

theorem Alike.isHeld (alike : l.Alike pairs key l') : l'.isHeld = l.isHeld := by
  simp only [Lease.isHeld, alike.holder]

theorem Alike.isHeldBy (alike : l.Alike pairs key l') (identity : String) :
    l'.isHeldBy identity = l.isHeldBy identity := by
  simp only [Lease.isHeldBy, alike.isHeld, alike.holder]

theorem Alike.nextTransitions (alike : l.Alike pairs key l') :
    l'.nextTransitions? = l.nextTransitions? := by
  simp only [nextTransitions?, alike.transitions]

end Lease

namespace Candidate

variable {c : Candidate} {wall wall' : Timestamp}

theorem firstLease_alike
    (clock : (⟨key, c.identity, wall⟩, ⟨key, c.identity, wall'⟩) ∈ pairs) :
    (c.firstLease wall).Alike pairs key (c.firstLease wall') :=
  ⟨rfl, rfl, rfl, fun _ => clock, fun _ => clock⟩

theorem takenLease_alike (count : Nat)
    (clock : (⟨key, c.identity, wall⟩, ⟨key, c.identity, wall'⟩) ∈ pairs) :
    (c.takenLease wall count).Alike pairs key (c.takenLease wall' count) :=
  ⟨rfl, rfl, rfl, fun _ => clock, fun _ => clock⟩

theorem renewedLease_alike {l l' : Lease} (alike : l.Alike pairs key l')
    (own : l.holder = c.identity)
    (clock : (⟨key, c.identity, wall⟩, ⟨key, c.identity, wall'⟩) ∈ pairs) :
    (c.renewedLease wall l).Alike pairs key (c.renewedLease wall' l') where
  holder := rfl
  duration := rfl
  transitions := alike.transitions
  acquired := by
    intro held
    have acquired := alike.acquired
    rw [own] at acquired
    exact acquired held
  renewed := fun _ => clock

theorem releasedLease_alike (wall wall' : Timestamp) (count : Nat) :
    (releasedLease wall count).Alike pairs key (releasedLease wall' count) :=
  ⟨rfl, rfl, rfl, fun held => absurd rfl held, fun held => absurd rfl held⟩

theorem claim_alike {e e' : Entry} (alike : e.Alike pairs key e')
    (clock : (⟨key, c.identity, wall⟩, ⟨key, c.identity, wall'⟩) ∈ pairs) :
    (c.claim wall e).Alike pairs key (c.claim wall' e') := by
  simp only [claim, alike.lease.isHeldBy, alike.lease.nextTransitions, ← alike.version]
  split
  · rename_i mine
    have own := ((Lease.isHeldBy_iff _ _).mp mine).1
    exact .write (.update _ (renewedLease_alike alike.lease own clock))
  · split
    · rename_i count _
      exact .write (.update _ (takenLease_alike count clock))
    · exact .overflow

theorem decide_alike {since since' now : Instant} {e e' : Entry} (alike : e.Alike pairs key e')
    (unchanged : e.lease.holder ≠ "" → since = since')
    (clock : (⟨key, c.identity, wall⟩, ⟨key, c.identity, wall'⟩) ∈ pairs) :
    (c.decide since now wall e).Alike pairs key (c.decide since' now wall' e') := by
  have claims := claim_alike alike clock
  simp only [decide, alike.lease.isHeld, ← alike.lease.holder, ← alike.lease.duration]
  by_cases foreign : (e.lease.isHeld && Decidable.decide (e.lease.holder ≠ c.identity)) = true
  · have held : e.lease.holder ≠ "" := by
      simp only [Bool.and_eq_true, Lease.isHeld, decide_eq_true_eq] at foreign
      exact foreign.1
    rw [if_pos foreign, if_pos foreign, ← unchanged held]
    split
    · exact .overflow
    · split
      · exact .wait
      · exact claims
  · rw [if_neg foreign, if_neg foreign]
    exact claims

end Candidate

/-- The same view with another reading of the wall clock. -/
def View.under (v : View) (wall : Timestamp) : View := { v with wall }

namespace Run

variable {r r' : Run}

theorem Alike.candidate (alike : r.Alike pairs r') : r'.candidate = r.candidate := by
  cases alike
  rfl

theorem Alike.call (alike : r.Alike pairs r') :
    Option.Rel (Call.Alike pairs r.candidate.resource) r.call? r'.call? := by
  cases alike with
  | @mk c s s' stage stage' sighting arrived =>
      cases arrived with
      | reading goal clock => exact .some .get
      | writing goal write => exact .some (.write write)
      | releasing verdict version lease => exact .some (.write (.update version lease))
      | same undated =>
          cases stage with
          | reading | writing | releasing => cases undated
          | _ => exact .none

theorem alike_goTo {stage stage' : Stage} (alike : r.Alike pairs r')
    (arrived : stage.Alike pairs r.candidate.resource r.candidate.identity stage') :
    (r.goTo stage).Alike pairs (r'.goTo stage') := by
  cases alike with
  | mk c sighting => exact .mk c sighting arrived

theorem observe_alike {e e' : Entry} (now : Instant) (oneToOne : OneToOne pairs)
    (alike : r.Alike pairs r')
    (entries : e.Alike pairs r.candidate.resource e') :
    StepAlike pairs (r.observe now e) (r'.observe now e') := by
  cases alike with
  | @mk c s s' stage stage' sighting arrived =>
      refine ⟨.mk c ⟨.some entries, ?_, entries.lease.holder⟩ arrived, ?_⟩
      · intro last seen held
        cases Option.some.inj seen
        obtain ⟨saw, since, reported⟩ := s
        obtain ⟨saw', since', reported'⟩ := s'
        cases sighting.seen with
        | none => rfl
        | @some before before' same =>
            have changed : before.lease = e.lease ↔ before'.lease = e'.lease := by
              rw [eq_comm, entries.lease.eq_iff oneToOne same.lease held, eq_comm]
            simp only [Sighting.observe, Option.map_some, Option.some.injEq, ← changed]
            split
            · rename_i unchanged
              exact sighting.since before rfl (unchanged ▸ held)
            · rfl
      · simp only [observe, Sighting.news, entries.lease.holder, sighting.reported]

/-- A step to a stage without times. -/
theorem alike_settled {stage : Stage} (alike : r.Alike pairs r') (effects : List Effect)
    (undated : stage.isCalling = false) :
    StepAlike pairs (r.goTo stage, effects) (r'.goTo stage, effects) :=
  ⟨alike_goTo alike (.same undated), rfl⟩

theorem handBack_alike (alike : r.Alike pairs r') (wall wall' : Timestamp) (verdict : Verdict) :
    (r.handBack wall verdict).Alike pairs (r'.handBack wall' verdict) := by
  have retires : Run.Alike pairs (r.goTo (.retiring verdict)) (r'.goTo (.retiring verdict)) :=
    alike_goTo alike (.same rfl)
  cases alike with
  | @mk c s s' stage stage' sighting arrived =>
      obtain ⟨saw, since, reported⟩ := s
      obtain ⟨saw', since', reported'⟩ := s'
      cases sighting.seen with
      | none => exact retires
      | @some e e' same =>
          simp only [handBack, same.lease.isHeldBy, ← same.version, ← same.lease.transitions]
          split
          · exact .mk c sighting (.releasing _ _ (Candidate.releasedLease_alike _ _ _))
          · exact retires

theorem failed_alike (alike : r.Alike pairs r') (now : Instant) (goal : Goal) :
    (r.failed now goal).Alike pairs (r'.failed now goal) := by
  cases alike with
  | mk c sighting arrived =>
      cases goal with
      | acquire ticker => exact .mk c sighting (.same rfl)
      | lead ticker renewedAt | windDown ticker renewedAt =>
          simp only [failed]
          split <;> exact .mk c sighting (.same rfl)

theorem succeeded_alike (alike : r.Alike pairs r') (now : Instant) (goal : Goal) :
    (r.succeeded now goal).Alike pairs (r'.succeeded now goal) := by
  cases alike with
  | mk c sighting arrived => cases goal <;> exact .mk c sighting (.same rfl)

/-- The run begins an attempt, and reads the wall clock for it. -/
def begins (r : Run) (v : View) : Bool :=
  (r.act v).any fun step => step.1.stage.isReading

section Act

variable {v : View} {wall' : Timestamp}

theorem tick_alike {ticker : Ticker} (alike : r.Alike pairs r') (goal : Ticker → Goal)
    (clock : ticker.isDue v.now = true → (⟨r.candidate.resource, r.candidate.identity, v.wall⟩,
      ⟨r.candidate.resource, r.candidate.identity, wall'⟩) ∈ pairs) :
    Option.Rel (StepAlike pairs) (r.tick v ticker goal) (r'.tick (v.under wall') ticker goal) := by
  have ticks' : r'.tick (v.under wall') ticker goal =
      if ticker.isDue v.now then
        some (r'.goTo (.reading (goal (ticker.taken v.now)) wall'), [])
      else none := rfl
  rw [ticks', tick]
  by_cases due : ticker.isDue v.now = true
  · rw [if_pos due, if_pos due]
    exact .some ⟨alike_goTo alike (.reading _ (clock due)), rfl⟩
  · rw [if_neg due, if_neg due]
    exact .none

/-- Whatever a waiting run does, it does under either clock. -/
theorem wake_alike {goal : Goal} (alike : r.Alike pairs r') (stage : r.stage = .waiting goal)
    (stage' : r'.stage = .waiting goal)
    (clock : r.begins v = true → r'.begins (v.under wall') = true →
      (⟨r.candidate.resource, r.candidate.identity, v.wall⟩,
        ⟨r.candidate.resource, r.candidate.identity, wall'⟩) ∈ pairs) :
    Option.Rel (StepAlike pairs) (r.wake v goal) (r'.wake (v.under wall') goal) := by
  obtain ⟨now, wall, requested, work⟩ := v
  have attempt : ∀ ticker (make : Ticker → Goal),
      r.wake ⟨now, wall, requested, work⟩ goal = r.tick ⟨now, wall, requested, work⟩ ticker make →
      r'.wake ⟨now, wall', requested, work⟩ goal =
        r'.tick ⟨now, wall', requested, work⟩ ticker make →
      Option.Rel (StepAlike pairs) (r.wake ⟨now, wall, requested, work⟩ goal)
        (r'.wake ⟨now, wall', requested, work⟩ goal) := by
    intro ticker make ticks ticks'
    rw [ticks, ticks']
    refine tick_alike alike make fun due => clock ?_ ?_
    · simp [begins, act, stage, ticks, tick, due, goTo, Stage.isReading]
    · simp [begins, act, stage', View.under, ticks', tick, due, goTo, Stage.isReading]
  cases goal with
  | acquire ticker =>
      cases requested with
      | true => exact .some (alike_settled alike [] rfl)
      | false => exact attempt ticker .acquire rfl rfl
  | lead ticker renewedAt =>
      cases requested with
      | true => exact .some (alike_settled alike [] rfl)
      | false =>
          cases work with
          | finished result => exact .some (alike_settled alike [] rfl)
          | _ => exact attempt ticker (.lead · renewedAt) rfl rfl
  | windDown ticker renewedAt =>
      cases work with
      | finished result => exact .some ⟨handBack_alike alike _ _ _, rfl⟩
      | _ => exact attempt ticker (.windDown · renewedAt) rfl rfl

theorem await_alike (alike : r.Alike pairs r') (goal : Ticker → Instant → Goal)
    (effects : List Effect) :
    StepAlike pairs (r.await v goal effects) (r'.await (v.under wall') goal effects) := by
  cases alike with
  | mk c sighting arrived =>
      simp only [await, View.under]
      split <;> exact ⟨.mk c sighting (.same rfl), rfl⟩

theorem act_alike (alike : r.Alike pairs r')
    (clock : r.begins v = true → r'.begins (v.under wall') = true →
      (⟨r.candidate.resource, r.candidate.identity, v.wall⟩,
        ⟨r.candidate.resource, r.candidate.identity, wall'⟩) ∈ pairs) :
    Option.Rel (StepAlike pairs) (r.act v) (r'.act (v.under wall')) := by
  have settled := fun {stage : Stage} (effects : List Effect) (undated : stage.isCalling = false) =>
    alike_settled alike effects undated
  have alike' := alike
  cases alike' with
  | @mk c s s' stage stage' sighting arrived =>
      cases arrived with
      | reading | writing | releasing => exact .none
      | same undated =>
          cases stage with
          | fresh =>
              by_cases still : c.retryPeriod.nanos = 0
              · simp only [act, if_pos still]
                exact .some (settled _ rfl)
              · simp only [act, if_neg still]
                exact .some (settled _ rfl)
          | waiting goal => exact wake_alike alike rfl rfl clock
          | installing => exact .some (await_alike alike _ _)
          | relieving reason =>
              cases reason with
              | requested => exact .some (await_alike alike _ _)
              | lost => exact .some (settled _ rfl)
              | workEnded result => exact .some ⟨handBack_alike alike _ _ _, rfl⟩
          | closing verdict =>
              cases verdict with
              | workFailed message => exact .some (settled _ rfl)
              | stopped =>
                  by_cases asked : v.requested = true
                  · simp only [act, View.under, asked, if_true]
                    exact .some (settled _ rfl)
                  · simp only [act, View.under, asked]
                    exact .some (settled _ rfl)
          | elected | aborting | retiring verdict | announcing => exact .some (settled _ rfl)
          | ended outcome | broken => exact .none
          | reading | writing | releasing => cases undated

/-- Both runs begin an attempt, or neither. -/
theorem begins_alike (steps : Option.Rel (StepAlike pairs) (r.act v) (r'.act (v.under wall'))) :
    r'.begins (v.under wall') = r.begins v := by
  unfold begins
  generalize r.act v = step at steps ⊢
  generalize r'.act (v.under wall') = step' at steps ⊢
  cases steps with
  | none => rfl
  | @some step step' alike =>
      obtain ⟨next, effects⟩ := step
      obtain ⟨next', effects'⟩ := step'
      cases alike.1 with
      | mk c sighting arrived => cases arrived <;> rfl

end Act

/-! ### Answers of the store -/

theorem afterRead_alike {goal : Goal} {wall wall' : Timestamp} {found found' : Option Entry}
    (now : Instant) (oneToOne : OneToOne pairs) (alike : r.Alike pairs r')
    (clock : (⟨r.candidate.resource, r.candidate.identity, wall⟩,
      ⟨r.candidate.resource, r.candidate.identity, wall'⟩) ∈ pairs)
    (entries : Option.Rel (Entry.Alike pairs r.candidate.resource) found found') :
    StepAlike pairs (r.afterRead now goal wall (.ok found))
      (r'.afterRead now goal wall' (.ok found')) := by
  cases entries with
  | none =>
      cases alike with
      | mk c sighting arrived =>
          exact ⟨.mk c sighting (.writing goal (.create (c.firstLease_alike clock))), rfl⟩
  | @some e e' same =>
      have looks : StepAlike pairs (r.observe now e) (r'.observe now e') :=
        observe_alike now oneToOne alike same
      have seen : (r.observe now e).1.sighting.seen = some e := rfl
      have kept : (r.observe now e).1.candidate = r.candidate := rfl
      simp only [afterRead]
      generalize r.observe now e = look at looks seen kept ⊢
      generalize r'.observe now e' = look' at looks ⊢
      obtain ⟨next, effects⟩ := look
      obtain ⟨next', effects'⟩ := look'
      obtain ⟨looked, reports⟩ := looks
      simp only at looked reports seen kept ⊢
      cases looked with
      | @mk c s s' stage stage' sighting arrived =>
          subst kept reports
          have decides : Decision.Alike pairs r.candidate.resource
              (r.candidate.decide s.since now wall e)
              (r.candidate.decide s'.since now wall' e') :=
            Candidate.decide_alike same (sighting.since e seen) clock
          generalize r.candidate.decide s.since now wall e = decision at decides ⊢
          generalize r.candidate.decide s'.since now wall' e' = decision' at decides ⊢
          have alike : Run.Alike pairs ⟨r.candidate, s, stage⟩ ⟨r.candidate, s', stage'⟩ :=
            .mk r.candidate sighting arrived
          cases decides with
          | wait => exact ⟨failed_alike alike now goal, rfl⟩
          | write written => exact ⟨.mk r.candidate sighting (.writing goal written), rfl⟩
          | overflow => exact alike_settled alike _ rfl

theorem receiveRead_alike {found found' : Option Entry} (now : Instant)
    (oneToOne : OneToOne pairs) (alike : r.Alike pairs r')
    (entries : Option.Rel (Entry.Alike pairs r.candidate.resource) found found') :
    StepAlike pairs (r.receiveRead now (.ok found)) (r'.receiveRead now (.ok found')) := by
  have alike' := alike
  cases alike' with
  | @mk c s s' stage stage' sighting arrived =>
      cases arrived with
      | reading goal clock => exact afterRead_alike now oneToOne alike clock entries
      | same undated =>
          cases stage with
          | reading => cases undated
          | _ => exact ⟨alike, rfl⟩
      | writing | releasing => exact ⟨alike, rfl⟩

theorem afterWrite_alike {answer answer' : WriteAnswer} (now : Instant)
    (oneToOne : OneToOne pairs) (goal : Goal) (alike : r.Alike pairs r') (answers : Written pairs r.candidate.resource answer answer') :
    StepAlike pairs (r.afterWrite now goal answer) (r'.afterWrite now goal answer') := by
  cases answers with
  | ok entries =>
      obtain ⟨looked, reports⟩ := observe_alike now oneToOne alike entries
      exact ⟨succeeded_alike looked now goal, reports⟩
  | error err =>
      cases err with
      | exhausted => exact alike_settled alike _ rfl
      | _ => exact ⟨failed_alike alike now goal, rfl⟩

theorem afterRelease_alike {answer answer' : WriteAnswer} (now : Instant)
    (oneToOne : OneToOne pairs) (verdict : Verdict) (alike : r.Alike pairs r')
    (answers : Written pairs r.candidate.resource answer answer') :
    StepAlike pairs (r.afterRelease now verdict answer) (r'.afterRelease now verdict answer') := by
  cases answers with
  | ok entries =>
      obtain ⟨looked, reports⟩ := observe_alike now oneToOne alike entries
      exact ⟨alike_goTo looked (.same rfl), reports⟩
  | error err => cases err <;> exact alike_settled alike _ rfl

theorem receiveWrite_alike {answer answer' : WriteAnswer} (now : Instant)
    (oneToOne : OneToOne pairs) (alike : r.Alike pairs r') (answers : Written pairs r.candidate.resource answer answer') :
    StepAlike pairs (r.receiveWrite now answer) (r'.receiveWrite now answer') := by
  have alike' := alike
  cases alike' with
  | @mk c s s' stage stage' sighting arrived =>
      cases arrived with
      | writing goal write => exact afterWrite_alike now oneToOne goal alike answers
      | releasing verdict version lease => exact afterRelease_alike now oneToOne verdict alike answers
      | same undated =>
          cases stage with
          | writing | releasing => cases undated
          | _ => exact ⟨alike, rfl⟩
      | reading => exact ⟨alike, rfl⟩

end Run

/-! ## The store and the members -/

namespace MemoryStore

variable {store store' : MemoryStore}

theorem put_alike {e e' : Entry} (stores : store.Alike pairs store')
    (entries : e.Alike pairs key e') : Alike pairs (store.put key e) (store'.put key e') := by
  intro other
  rw [Table.get?_put, Table.get?_put]
  by_cases same : key = other
  · subst same
    rw [if_pos rfl, if_pos rfl]
    exact .some entries
  · rw [if_neg same, if_neg same]
    exact stores other

theorem write_alike {w w' : Write} (stores : store.Alike pairs store')
    (writes : w.Alike pairs key w') :
    Written pairs key (store.write key w).1 (store'.write key w').1 ∧
      Alike pairs (store.write key w).2 (store'.write key w').2 := by
  have current := stores key
  cases writes with
  | @create l l' lease =>
      simp only [write, create]
      generalize store.get? key = found at current ⊢
      generalize store'.get? key = found' at current ⊢
      cases current with
      | some => exact ⟨.error _, stores⟩
      | none => exact ⟨.ok ⟨rfl, lease⟩, put_alike stores ⟨rfl, lease⟩⟩
  | @update version l l' lease =>
      simp only [write, update]
      generalize store.get? key = found at current ⊢
      generalize store'.get? key = found' at current ⊢
      cases current with
      | none => exact ⟨.error _, stores⟩
      | @some e e' same =>
          simp only [← same.version]
          by_cases current : e.version = version
          · simp only [if_pos current]
            cases Entry.nextVersion? version with
            | none => exact ⟨.error _, stores⟩
            | some next => exact ⟨.ok ⟨rfl, lease⟩, put_alike stores ⟨rfl, lease⟩⟩
          · simp only [if_neg current]
            exact ⟨.error _, stores⟩

end MemoryStore

/-- Members whose runs are alike, and that are the same otherwise. -/
structure Member.Alike (pairs : List (Stamp × Stamp)) (m m' : Member) : Prop where
  run : m.run.Alike pairs m'.run
  rest : m' = { m with run := m'.run }

namespace Contest

/-- What an effect does to a member does not depend on its run. -/
theorem affect_withRun (id : Nat) (m : Member) (r : Run) (effect : Effect) :
    affect id { m with run := r } effect =
      ({ (affect id m effect).1 with run := r }, (affect id m effect).2) := by
  cases effect with
  | abortWork =>
      simp only [affect]
      split <;> rfl
  | _ => rfl

theorem affectAll_withRun (id : Nat) (m : Member) (r : Run) (effects : List Effect) :
    affectAll id { m with run := r } effects =
      ({ (affectAll id m effects).1 with run := r }, (affectAll id m effects).2) := by
  induction effects generalizing m with
  | nil => rfl
  | cons effect effects ih => simp only [affectAll, affect_withRun, ih]

/-- Both runs have come to the same point, so the same facts show it. -/
theorem arrival_alike {r r' : Run} (alike : r.Alike pairs r') (id : Nat) (now : Instant) :
    arrival id now r' = arrival id now r := by
  cases alike with
  | mk c sighting arrived => cases arrived <;> rfl

end Contest

end LeaderLease
