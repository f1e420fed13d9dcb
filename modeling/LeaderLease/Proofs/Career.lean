import LeaderLease.Proofs.Moves

/-!
# The career of one run

`Career id now m log` follows one member in any surroundings: its run takes its steps, its lock
answers each call as it likes, it is asked to stop and its work ends at any time, and time passes
only as far as its timers allow. `career_of_punctualPlay` says that every member of a contest on
punctual time has such a career, so what holds along every career holds in every contest, whatever
the others write.
-/

set_option autoImplicit false

namespace LeaderLease

open Contest (affectAll arrival canWait IsNotice)

/-- One step of a member, and the facts that it adds. -/
inductive Turn (id : Nat) (now : Instant) (m : Member) : Member → List Fact → Prop where
  | act {wall : Timestamp} {next : Run} {effects : List Effect}
      (acts : m.run.Acts (m.view now wall) next effects) :
      Turn id now m (m.after id (next, effects)) (m.facts id now (next, effects))
  | read {goal : Goal} {wall : Timestamp} {answer : ReadAnswer} {next : Run}
      {effects : List Effect} (stage : m.run.stage = .reading goal wall)
      (reads : m.run.Reads now goal wall answer next effects) :
      Turn id now m (m.after id (next, effects))
        (readFacts id now answer ++ m.facts id now (next, effects))
  | write {w : Write} {answer : WriteAnswer} {next : Run} {effects : List Effect}
      (called : m.run.call? = some (.write w)) (writes : m.run.Writes now answer next effects) :
      Turn id now m (m.after id (next, effects))
        (writeFacts id now m.run.candidate.resource answer ++ m.facts id now (next, effects))
  | request (unasked : m.scope = false) :
      Turn id now m { m with scope := true, workScope := true } (m.requestFacts id)
  | trigger : Turn id now m { m with triggered := true } []
  | finish {result : WorkResult} (running : m.work = .running) :
      Turn id now m { m with work := .finished result } [.workEnded id result]

inductive Career (id : Nat) : Instant → Member → Log → Prop where
  | start {now : Instant} {candidate : Candidate} {log : Log}
      (unknown : ∀ fact ∈ log, fact.member? ≠ some id) :
      Career id now { run := .start candidate now } (log ++ [.started id])
  | turn {now : Instant} {m next : Member} {log : Log} {facts : List Fact}
      (before : Career id now m log) (step : Turn id now m next facts) :
      Career id now next (log ++ facts)
  | others {now : Instant} {m : Member} {log : Log} {facts : List Fact}
      (before : Career id now m log) (elsewhere : ∀ fact ∈ facts, fact.member? ≠ some id) :
      Career id now m (log ++ facts)
  | wait {now : Instant} {m : Member} {log : Log} {time : Duration}
      (before : Career id now m log) (idle : canWait now time m = true) :
      Career id (now + time.nanos) m log

/-! ## Whom the facts of a step are about -/

theorem member_of_isNotice {id : Nat} {fact : Fact} (notice : IsNotice id fact) :
    fact.member? = some id := by
  cases fact <;> first | exact congrArg some notice | exact False.elim notice

theorem member_of_arrival {id : Nat} {now : Instant} {r : Run} :
    ∀ fact ∈ arrival id now r, fact.member? = some id := by
  intro fact member
  unfold arrival at member
  split at member <;> simp only [List.mem_singleton, List.not_mem_nil] at member <;>
    subst member <;> rfl

theorem member_of_facts {id : Nat} {now : Instant} {m : Member} {step : Run × List Effect} :
    ∀ fact ∈ m.facts id now step, fact.member? = some id := by
  intro fact member
  rcases List.mem_append.mp member with member | member
  · exact member_of_isNotice (Contest.isNotice_affectAll id _ _ fact member)
  · exact member_of_arrival fact member

theorem member_of_turn {id : Nat} {now : Instant} {m next : Member} {facts : List Fact}
    (step : Turn id now m next facts) : ∀ fact ∈ facts, fact.member? = some id := by
  intro fact member
  cases step with
  | act acts => exact member_of_facts fact member
  | @read goal wall answer _ _ stage reads =>
      rcases List.mem_append.mp member with member | member
      · unfold readFacts at member
        split at member
        · cases List.mem_singleton.mp member
          rfl
        · cases member
      · exact member_of_facts fact member
  | @write w answer _ _ called writes =>
      rcases List.mem_append.mp member with member | member
      · cases answer with
        | ok e =>
            rcases List.mem_cons.mp member with rfl | member
            · rfl
            · cases List.mem_singleton.mp member
              rfl
        | error e => cases member
      · exact member_of_facts fact member
  | request unasked =>
      rcases List.mem_cons.mp member with rfl | member
      · rfl
      · split at member
        · cases List.mem_singleton.mp member
          rfl
        · cases member
  | trigger => cases member
  | finish running =>
      cases List.mem_singleton.mp member
      rfl

/-- Only a run that waits for a tick, or one that has ended, lets time pass. -/
theorem stage_of_canWait {now : Instant} {time : Duration} {m : Member}
    (idle : canWait now time m = true) :
    (∃ goal, m.run.stage = .waiting goal ∧ now + time.nanos ≤ goal.ticker.due) ∨
      m.run.hasEnded = true := by
  simp only [canWait, Contest.isBusy, Bool.and_eq_true, Bool.not_eq_true', Bool.or_eq_false_iff,
    Option.isSome_eq_false_iff, Option.isNone_iff_eq_none] at idle
  obtain ⟨⟨⟨noCall, noAct⟩, -⟩, notLate⟩ := idle
  cases stage : m.run.stage with
  | waiting goal =>
      refine Or.inl ⟨goal, rfl, ?_⟩
      cases goal <;> simpa [Contest.nextTick?, stage, Goal.ticker] using notLate
  | ended outcome => exact Or.inr (by simp only [Run.hasEnded, stage])
  | broken => exact Or.inr (by simp only [Run.hasEnded, stage])
  | reading goal wall => simp [Run.call?, stage] at noCall
  | writing goal w => simp [Run.call?, stage] at noCall
  | releasing verdict version lease => simp [Run.call?, stage] at noCall
  | fresh =>
      simp only [Run.act, stage] at noAct
      split at noAct <;> cases noAct
  | relieving reason => cases reason <;> simp [Run.act, stage] at noAct
  | closing verdict =>
      cases verdict with
      | workFailed message => simp [Run.act, stage] at noAct
      | stopped =>
          simp only [Run.act, stage] at noAct
          split at noAct <;> cases noAct
  | _ => simp [Run.act, stage] at noAct

/-! ## Careers in a contest -/

namespace Contest

/-- What holds of the empty contest and is kept by every punctual step holds after every punctual
play. -/
theorem punctualPlay_induction {P : Contest → Prop} (start : P .empty)
    (step : ∀ {c next move}, P c → c.punctualStep move = some next → P next)
    {moves : List Move} {c : Contest} (run : Contest.empty.punctualPlay moves = some c) : P c := by
  suffices generalized : ∀ (moves : List Move) (c₀ : Contest), P c₀ →
      c₀.punctualPlay moves = some c → P c from generalized moves _ start run
  intro moves
  induction moves with
  | nil =>
      intro c₀ holds run
      cases Option.some.inj run
      exact holds
  | cons move moves ih =>
      intro c₀ holds run
      obtain ⟨c₁, first, rest⟩ := Option.bind_eq_some_iff.mp run
      exact ih c₁ (step holds first) rest

theorem punctualPlay_append (c : Contest) (xs ys : List Move) :
    c.punctualPlay (xs ++ ys) = (c.punctualPlay xs).bind fun c => c.punctualPlay ys := by
  induction xs generalizing c with
  | nil => rfl
  | cons move moves ih =>
      simp only [List.cons_append, punctualPlay]
      cases c.punctualStep move with
      | none => rfl
      | some next => exact ih next

/-- Some moves on punctual time lead to the contest. -/
def Reached (c : Contest) : Prop := ∃ moves, Contest.empty.punctualPlay moves = some c

theorem Reached.step {c next : Contest} (reached : c.Reached) (move : Move)
    (run : c.punctualStep move = some next) : next.Reached := by
  obtain ⟨moves, before⟩ := reached
  refine ⟨moves ++ [move], ?_⟩
  rw [punctualPlay_append, before]
  simp [punctualPlay, run]

theorem step_of_punctualStep {c next : Contest} {move : Move}
    (run : c.punctualStep move = some next) : c.step move = some next := by
  cases move with
  | pass time =>
      simp only [punctualStep] at run
      split at run
      · exact run
      · cases run
  | _ => exact run

/-- Moves that are possible on punctual time are possible. -/
theorem play_of_punctualPlay {c c' : Contest} {moves : List Move}
    (run : c.punctualPlay moves = some c') : c.play moves = some c' := by
  induction moves generalizing c with
  | nil => exact run
  | cons move moves ih =>
      obtain ⟨next, first, rest⟩ := Option.bind_eq_some_iff.mp run
      exact Option.bind_eq_some_iff.mpr ⟨next, step_of_punctualStep first, ih rest⟩

theorem mayPass_of_punctualStep {c next : Contest} {time : Duration}
    (run : c.punctualStep (.pass time) = some next) {id : Nat} {m : Member}
    (present : c.members.get? id = some m) : canWait c.now time m = true := by
  simp only [punctualStep] at run
  split at run
  · rename_i idle
    exact List.all_eq_true.mp idle m (Table.mem_values_of_get? present)
  · cases run

/-- Every fact about a member comes after its start, and every member has a career. -/
structure Careers (c : Contest) : Prop where
  known : ∀ fact ∈ c.log, ∀ id, fact.member? = some id → Fact.started id ∈ c.log
  careers : ∀ id m, c.members.get? id = some m →
    Fact.started id ∈ c.log ∧ Career id c.now m c.log

theorem careers_empty : Careers .empty where
  known := by intro fact member; cases member
  careers := by intro id m present; cases present

theorem careers_turn {c : Contest} (store : MemoryStore) {id : Nat} {m next : Member}
    {facts : List Fact} (before : Careers c) (present : c.members.get? id = some m)
    (step : Turn id c.now m next facts) :
    Careers ⟨c.now, store, c.members.put id next, c.log ++ facts⟩ where
  known := by
    intro fact member j about
    rcases List.mem_append.mp member with member | member
    · exact List.mem_append_left _ (before.known fact member j about)
    · have same : some id = some j := (member_of_turn step fact member).symm.trans about
      cases same
      exact List.mem_append_left _ (before.careers id m present).1
  careers := by
    intro j n found
    rw [Table.get?_put] at found
    split at found
    · rename_i same
      subst same
      cases Option.some.inj found
      obtain ⟨started, career⟩ := before.careers id m present
      exact ⟨List.mem_append_left _ started, .turn career step⟩
    · rename_i other
      obtain ⟨started, career⟩ := before.careers j n found
      refine ⟨List.mem_append_left _ started, .others career fun fact member about => other ?_⟩
      exact Option.some.inj ((member_of_turn step fact member).symm.trans about)

theorem careers_others {c : Contest} {store : MemoryStore} {members : Table Nat Member}
    {facts : List Fact} (before : Careers c)
    (kept : ∀ id m, members.get? id = some m → c.members.get? id = some m)
    (known : ∀ fact ∈ facts, ∀ id, fact.member? = some id →
      Fact.started id ∈ c.log ∧ members.get? id = none) :
    Careers ⟨c.now, store, members, c.log ++ facts⟩ where
  known := by
    intro fact member id about
    rcases List.mem_append.mp member with member | member
    · exact List.mem_append_left _ (before.known fact member id about)
    · exact List.mem_append_left _ (known fact member id about).1
  careers := by
    intro id m found
    obtain ⟨started, career⟩ := before.careers id m (kept id m found)
    refine ⟨List.mem_append_left _ started, .others career fun fact member about => ?_⟩
    have gone := (known fact member id about).2
    cases gone.symm.trans found

theorem careers_start {c : Contest} {id : Nat} {candidate : Candidate} (before : Careers c)
    (unused : Fact.started id ∉ c.log) :
    Careers ⟨c.now, c.store, c.members.put id { run := .start candidate c.now },
      c.log ++ [.started id]⟩ where
  known := by
    intro fact member j about
    rcases List.mem_append.mp member with member | member
    · exact List.mem_append_left _ (before.known fact member j about)
    · cases List.mem_singleton.mp member
      cases Option.some.inj about
      exact List.mem_append_right _ (List.mem_singleton_self _)
  careers := by
    intro j n found
    rw [Table.get?_put] at found
    split at found
    · rename_i same
      subst same
      cases Option.some.inj found
      refine ⟨List.mem_append_right _ (List.mem_singleton_self _), .start ?_⟩
      exact fun fact member about => unused (before.known fact member id about)
    · rename_i other
      obtain ⟨started, career⟩ := before.careers j n found
      refine ⟨List.mem_append_left _ started, .others career fun fact member about => other ?_⟩
      cases List.mem_singleton.mp member
      exact Option.some.inj about

theorem careers_step {c next : Contest} {move : Move} (before : Careers c)
    (run : c.punctualStep move = some next) : Careers next := by
  cases change_of_step (step_of_punctualStep run) with
  | start unused => exact careers_start before unused
  | act present acts => exact careers_turn _ before present (.act acts)
  | read present stage reads => exact careers_turn _ before present (.read stage reads)
  | write present called writes => exact careers_turn _ before present (.write called writes)
  | request present asks unasked => exact careers_turn _ before present (.request unasked)
  | repeated present asks asked => exact before
  | trigger present =>
      have turned := careers_turn c.store before present .trigger
      rwa [List.append_nil] at turned
  | finish present running => exact careers_turn _ before present (.finish running)
  | @vanish id m present =>
      refine careers_others before (fun j n found => Table.get?_of_get?_erase found)
        (fun fact member j about => ?_)
      cases List.mem_singleton.mp member
      cases Option.some.inj about
      exact ⟨(before.careers id m present).1, by rw [Table.get?_erase, if_pos rfl]⟩
  | @foreign key w =>
      refine careers_others before (fun j n found => found) (fun fact member j about => ?_)
      cases answer : (c.store.write key w).1 with
      | ok e =>
          rw [answer] at member
          cases List.mem_singleton.mp member
          cases about
      | error e =>
          rw [answer] at member
          cases member
  | @pass time =>
      refine ⟨before.known, fun id m found => ?_⟩
      obtain ⟨started, career⟩ := before.careers id m found
      exact ⟨started, .wait career (mayPass_of_punctualStep run found)⟩

theorem career_of_punctualPlay {moves : List Move} {c : Contest} {id : Nat} {m : Member}
    (run : Contest.empty.punctualPlay moves = some c) (present : c.members.get? id = some m) :
    Career id c.now m c.log :=
  ((punctualPlay_induction careers_empty careers_step run).careers id m present).2

end Contest

end LeaderLease
