import LeaderLease.Proofs.Standing
import LeaderLease.Proofs.Work

/-!
# Exclusion

Any number of runs compete for one key that nobody else writes, on punctual time. If runs that are
live at the same time have different names, and no identity takes the same reading of the wall clock
for two attempts, then the lease in the store names every run whose work runs. So there is one such
run at most, and no run loses its lease.
-/

set_option autoImplicit false

namespace LeaderLease

namespace Contest

/-- The reading of the wall clock with which a move starts an attempt on the key, and the identity
that takes it. -/
def reading? (c : Contest) (key : String) : Move → Option (String × Timestamp)
  | .act id wall =>
    (c.members.get? id).bind fun m => (m.run.act (m.view c.now wall)).bind fun step =>
      if m.run.candidate.resource = key ∧ step.1.stage.wall?.isSome then
        some (m.run.candidate.identity, wall)
      else none
  | _ => none

/-- Who starts for the key is admissible and has a name that no live run has; nobody else writes. -/
def Grants (c : Contest) (key : String) : Move → Prop
  | .start _ candidate => candidate.resource = key → candidate.Admissible ∧
    ∀ m ∈ c.members.values, m.run.candidate.resource = key →
      m.run.hasEnded = false → m.run.candidate.identity ≠ candidate.identity
  | .foreign k _ => k ≠ key
  | _ => True

instance (c : Contest) (key : String) (move : Move) : Decidable (c.Grants key move) :=
  match move with
  | .start _ candidate =>
    inferInstanceAs (Decidable (candidate.resource = key → candidate.Admissible ∧
      ∀ m ∈ c.members.values, m.run.candidate.resource = key →
        m.run.hasEnded = false → m.run.candidate.identity ≠ candidate.identity))
  | .foreign k _ => inferInstanceAs (Decidable (k ≠ key))
  | .act _ _ | .call _ | .cancel _ | .trigger _ | .listen _ | .finish _ _ | .vanish _ | .pass _ =>
    isTrue trivial

/-- Contests for a key on punctual time, and the readings of the wall clock that were taken. -/
inductive Contested (key : String) : List (String × Timestamp) → Contest → Prop where
  | empty : Contested key [] .empty
  | step {taken : List (String × Timestamp)} {c next : Contest} {move : Move}
      (before : Contested key taken c) (grants : c.Grants key move)
      (unread : ∀ reading, c.reading? key move = some reading → reading ∉ taken)
      (run : c.punctualStep move = some next) :
      Contested key ((c.reading? key move).toList ++ taken) next

/-- Plays moves for as long as they make a contest for the key. -/
def contend? (key : String) (taken : List (String × Timestamp)) (c : Contest) :
    List Move → Option (List (String × Timestamp) × Contest)
  | [] => some (taken, c)
  | move :: moves =>
    if c.Grants key move ∧ (c.reading? key move).all (fun reading => reading ∉ taken) then
      (c.punctualStep move).bind fun next =>
        next.contend? key ((c.reading? key move).toList ++ taken) moves
    else none

theorem contested_of_contend? {key : String} {taken taken' : List (String × Timestamp)}
    {c next : Contest} {moves : List Move} (before : Contested key taken c)
    (run : c.contend? key taken moves = some (taken', next)) : Contested key taken' next := by
  induction moves generalizing taken c with
  | nil =>
      cases Option.some.inj run
      exact before
  | cons move moves ih =>
      unfold contend? at run
      split at run
      · rename_i terms
        obtain ⟨after, first, rest⟩ := Option.bind_eq_some_iff.mp run
        refine ih (.step before terms.1 (fun reading taking => ?_) first) rest
        have unread := terms.2
        rw [taking] at unread
        exact of_decide_eq_true unread
      · cases run

structure Orderly (key : String) (taken : List (String × Timestamp)) (c : Contest) : Prop where
  chronicle : c.Chronicle
  signed : Signed (c.log.records key) taken
  apart : ∀ i j m n, c.members.get? i = some m → c.members.get? j = some n →
    m.run.candidate.resource = key → n.run.candidate.resource = key →
      m.run.hasEnded = false → n.run.hasEnded = false → i ≠ j →
        m.run.candidate.identity ≠ n.run.candidate.identity
  stands : ∀ id m, c.members.get? id = some m → m.run.candidate.resource = key →
    m.run.Stands c.now (c.log.records key) taken

variable {key : String} {taken taken' : List (String × Timestamp)} {c : Contest}

theorem orderly_empty : Orderly key [] .empty where
  chronicle := chronicle_empty
  signed := by intro x member; cases member
  apart := by intro i j m n present; cases present
  stands := by intro id m present; cases present

theorem apart_put {id : Nat} {m next : Member} (before : Orderly key taken c)
    (present : c.members.get? id = some m) (same : next.run.candidate = m.run.candidate)
    (live : next.run.hasEnded = false → m.run.hasEnded = false) :
    ∀ i j n o, (c.members.put id next).get? i = some n → (c.members.put id next).get? j = some o →
      n.run.candidate.resource = key → o.run.candidate.resource = key →
        n.run.hasEnded = false → o.run.hasEnded = false → i ≠ j →
          n.run.candidate.identity ≠ o.run.candidate.identity := by
  -- Whoever is live now was live before, under the same candidate.
  have was : ∀ i n, (c.members.put id next).get? i = some n → n.run.hasEnded = false →
      ∃ n', c.members.get? i = some n' ∧ n'.run.candidate = n.run.candidate ∧
        n'.run.hasEnded = false := by
    intro i n found alive
    rw [Table.get?_put] at found
    split at found
    · rename_i sameId
      subst sameId
      cases Option.some.inj found
      exact ⟨m, present, same.symm, live alive⟩
    · exact ⟨n, found, rfl, alive⟩
  intro i j n o first second forKey forKey' alive alive' differ
  obtain ⟨n', first, sameFirst, alive⟩ := was i n first alive
  obtain ⟨o', second, sameSecond, alive'⟩ := was j o second alive'
  rw [← sameFirst, ← sameSecond]
  rw [← sameFirst] at forKey
  rw [← sameSecond] at forKey'
  exact before.apart i j n' o' first second forKey forKey' alive alive' differ

theorem orderly_quiet {store : MemoryStore} {id : Nat} {m next : Member} {facts : List Fact}
    (before : Orderly key taken c) (present : c.members.get? id = some m)
    (chronicle : Chronicle ⟨c.now, store, c.members.put id next, c.log ++ facts⟩)
    (silent : Log.records (c.log ++ facts) key = c.log.records key)
    (grown : ∀ reading ∈ taken, reading ∈ taken') (same : next.run.candidate = m.run.candidate)
    (live : next.run.hasEnded = false → m.run.hasEnded = false)
    (stands : m.run.candidate.resource = key →
      next.run.Stands c.now (c.log.records key) taken') :
    Orderly key taken' ⟨c.now, store, c.members.put id next, c.log ++ facts⟩ where
  chronicle := chronicle
  signed := by
    rw [silent]
    exact fun x member held => grown _ (before.signed x member held)
  apart := apart_put before present same live
  stands := by
    intro j n found forKey
    rw [silent]
    rw [Table.get?_put] at found
    split at found
    · cases Option.some.inj found
      exact stands (same ▸ forKey)
    · exact (before.stands j n found forKey).mono grown

/-! ## Runs that have not ended -/

theorem live_of_keepsLease {r : Run} (keeps : r.stage.keepsLease = true) :
    r.hasEnded = false := by
  refine Bool.eq_false_iff.mpr fun ended => ?_
  cases (Run.keepsLease_of_hasEnded ended).symm.trans keeps

theorem live_of_wall {r : Run} {wall : Timestamp} (trying : r.stage.wall? = some wall) :
    r.hasEnded = false := by
  refine Bool.eq_false_iff.mpr fun ended => ?_
  rcases Run.stage_of_hasEnded ended with ⟨outcome, stage⟩ | stage <;>
    rw [stage] at trying <;> cases trying

theorem live_of_call {r : Run} {call : Call} (called : r.call? = some call) :
    r.hasEnded = false := by
  refine Bool.eq_false_iff.mpr fun ended => ?_
  rcases Run.stage_of_hasEnded ended with ⟨outcome, stage⟩ | stage <;>
    simp [Run.call?, stage] at called

theorem live_of_act {r next : Run} {v : View} {effects : List Effect}
    (acted : r.act v = some (next, effects)) : r.hasEnded = false := by
  refine Bool.eq_false_iff.mpr fun ended => ?_
  rcases Run.stage_of_hasEnded ended with ⟨outcome, stage⟩ | stage <;>
    simp [Run.act, stage] at acted

/-! ## What each step keeps -/

/-- Only an attempt has a reading of the wall clock, the one of its step. -/
theorem wall_of_acts {r next : Run} {v : View} {effects : List Effect} {wall : Timestamp}
    (acts : r.Acts v next effects) (reading : next.stage.wall? = some wall) : wall = v.wall := by
  cases acts with
  | attempt => exact (Option.some.inj reading).symm
  | finish | conclude =>
      rcases Run.handBack_cases r v.wall _ with same | ⟨e, seen, mine, same⟩ <;>
        rw [same] at reading <;> cases reading
  | _ => cases reading

theorem orderly_act {id : Nat} {wall : Timestamp} {next : Contest} (before : Orderly key taken c)
    (unread : ∀ reading, c.reading? key (.act id wall) = some reading → reading ∉ taken)
    (run : c.step (.act id wall) = some next) :
    Orderly key ((c.reading? key (.act id wall)).toList ++ taken) next := by
  have chronicle := chronicle_step before.chronicle run
  obtain ⟨m, present, run⟩ := Option.bind_eq_some_iff.mp run
  obtain ⟨⟨after, effects⟩, acted, run⟩ := Option.bind_eq_some_iff.mp run
  cases Option.some.inj run
  have acts := Run.acts_of_act acted
  have silent : Log.records (c.log ++ m.facts id c.now (after, effects)) key =
      c.log.records key := by
    rw [Log.records_append_of_not_stores _ (Log.not_stores_facts _ _ _ _)]
  have after_run : (m.after id (after, effects)).run = after := Member.after_run id m _
  refine orderly_quiet before present chronicle silent
    (fun reading member => List.mem_append_right _ member) ?_ (fun _ => live_of_act acted) ?_
  · exact (congrArg Run.candidate after_run).trans acts.candidate
  · intro forKey
    have stands := before.stands id m present forKey
    refine after_run.symm ▸ stands.act acts before.signed fun wall' reading => ?_
    have same : wall' = wall := wall_of_acts acts reading
    subst same
    have taken : c.reading? key (.act id wall') = some (m.run.candidate.identity, wall') := by
      simp only [reading?, present, acted, Option.bind_some, forKey, reading, Option.isSome_some,
        and_self, if_true]
    exact ⟨unread _ taken, List.mem_append_left _ (by rw [taken]; exact List.mem_singleton_self _)⟩

theorem orderly_read {id : Nat} {m : Member} {goal : Goal} {wall : Timestamp} {next : Run}
    {effects : List Effect} (before : Orderly key taken c)
    (present : c.members.get? id = some m) (stage : m.run.stage = .reading goal wall)
    (reads : m.run.Reads c.now goal wall (.ok (c.store.get? m.run.candidate.resource)) next
      effects) :
    Orderly key taken ⟨c.now, c.store, c.members.put id (m.after id (next, effects)),
      c.log ++ (readFacts id c.now (.ok (c.store.get? m.run.candidate.resource)) ++
        m.facts id c.now (next, effects))⟩ := by
  have keeps := before.chronicle.keeps
  refine orderly_quiet before present (chronicle_read before.chronicle present stage reads) ?_
    (fun reading member => member) ?_ ?_ ?_
  · rw [Log.records_append_of_not_stores _ (Log.not_stores_append
      (Log.not_stores_readFacts _ _ _) (Log.not_stores_facts _ _ _ _))]
  · rw [Member.after_run]
    exact reads.candidate
  · intro _
    simp only [Run.hasEnded, stage]
  · intro forKey
    rw [Member.after_run]
    refine Run.Stands.read reads (before.stands id m present forKey) stage (keeps.past key) ?_
    rw [forKey]
    exact keeps.current key

/-- Whoever stores for the key finds no other run that keeps the lease. -/
theorem stands_beside {id j : Nat} {m n : Member} {w : Write} {e : Entry} {store : MemoryStore}
    (before : Orderly key taken c) (present : c.members.get? id = some m)
    (found : c.members.get? j = some n) (forKey : m.run.candidate.resource = key)
    (forKey' : n.run.candidate.resource = key) (differ : id ≠ j)
    (called : m.run.call? = some (.write w)) (run : c.store.write key w = (.ok e, store)) :
    n.run.Stands c.now (c.log.records key ++ [⟨some id, c.now, e⟩]) taken := by
  have keeps := before.chronicle.keeps
  have stands := before.stands id m present forKey
  have stands' := before.stands j n found forKey'
  have recalls := before.chronicle.recalls id m present
  have recalls' := before.chronicle.recalls j n found
  rw [forKey] at recalls
  rw [forKey'] at recalls'
  have others : n.run.hasEnded = false →
      m.run.candidate.identity ≠ n.run.candidate.identity := fun alive =>
    before.apart id j m n present found forKey forKey' (live_of_call called) alive differ
  obtain ⟨-, stored, -⟩ := MemoryStore.write_ok run
  have bears := stands.bears recalls called
  rw [← stored] at bears
  refine stands'.other recalls' ?_ ?_ ?_
  · cases alive : n.run.hasEnded with
    | true => exact Run.keepsLease_of_hasEnded alive
    | false =>
        exact stands.excludes recalls stands' (keeps.numbered key) (others alive) called
          fun x member last => keeps.replaces run member last
  · intro wall trying holder
    rcases bears with handed | ⟨mine, -⟩
    · exact stands'.admissible.named (holder.symm.trans handed)
    · exact others (live_of_wall trying) (mine.symm.trans holder)
  · intro held
    rcases bears with handed | ⟨-, -, new⟩
    · exact absurd handed held
    · exact new

/-- What a run stores for the key is held by nobody, or bears a reading that was taken. -/
theorem orderly_written {id : Nat} {m : Member} {w : Write} {e : Entry} {store : MemoryStore}
    {next : Run} {effects : List Effect} (before : Orderly key taken c)
    (present : c.members.get? id = some m) (forKey : m.run.candidate.resource = key)
    (called : m.run.call? = some (.write w)) (run : c.store.write key w = (.ok e, store))
    (writes : m.run.Writes c.now (.ok e) next effects)
    (chronicle : Chronicle ⟨c.now, store, c.members.put id (m.after id (next, effects)),
      c.log ++ (writeFacts id c.now key (.ok e) ++ m.facts id c.now (next, effects))⟩) :
    Orderly key taken ⟨c.now, store, c.members.put id (m.after id (next, effects)),
      c.log ++ (writeFacts id c.now key (.ok e) ++ m.facts id c.now (next, effects))⟩ := by
  have stands := before.stands id m present forKey
  have recalls := before.chronicle.recalls id m present
  rw [forKey] at recalls
  obtain ⟨-, stored, -⟩ := MemoryStore.write_ok run
  have grown : Log.records (c.log ++ (writeFacts id c.now key (.ok e) ++
      m.facts id c.now (next, effects))) key = c.log.records key ++ [⟨some id, c.now, e⟩] := by
    rw [Keeps.records_written id e (Log.not_stores_facts _ _ _ _), if_pos rfl]
  have after_run : (m.after id (next, effects)).run = next := Member.after_run id m _
  have same : (m.after id (next, effects)).run.candidate = m.run.candidate :=
    (congrArg Run.candidate after_run).trans writes.candidate
  refine ⟨chronicle, ?_, apart_put before present same fun _ => live_of_call called, ?_⟩
  · rw [grown]
    intro x member held
    rcases List.mem_append.mp member with member | member
    · exact before.signed x member held
    · cases List.mem_singleton.mp member
      have bears := stands.bears recalls called
      rw [← stored] at bears
      rcases bears with handed | ⟨mine, read, -⟩
      · exact absurd handed held
      · exact mine ▸ read
  · intro j n found forKey'
    rw [grown]
    rw [Table.get?_put] at found
    split at found
    · cases Option.some.inj found
      exact after_run.symm ▸ stands.written writes recalls called stored
    · rename_i differ
      exact stands_beside before present found forKey forKey' differ called run

theorem orderly_write {id : Nat} {m : Member} {w : Write} {next : Run} {effects : List Effect}
    (before : Orderly key taken c) (present : c.members.get? id = some m)
    (called : m.run.call? = some (.write w))
    (writes : m.run.Writes c.now (c.store.write m.run.candidate.resource w).1 next effects) :
    Orderly key taken ⟨c.now, (c.store.write m.run.candidate.resource w).2,
      c.members.put id (m.after id (next, effects)),
      c.log ++ (writeFacts id c.now m.run.candidate.resource
        (c.store.write m.run.candidate.resource w).1 ++ m.facts id c.now (next, effects))⟩ := by
  have chronicle := chronicle_write before.chronicle present called writes
  have after_run : (m.after id (next, effects)).run = next := Member.after_run id m _
  have same : (m.after id (next, effects)).run.candidate = m.run.candidate :=
    (congrArg Run.candidate after_run).trans writes.candidate
  have silent := Log.not_stores_facts id c.now m (next, effects)
  generalize run : c.store.write m.run.candidate.resource w = answered at writes chronicle ⊢
  obtain ⟨answer, store⟩ := answered
  cases answer with
  | ok e =>
      by_cases forKey : m.run.candidate.resource = key
      · rw [forKey] at run chronicle ⊢
        exact orderly_written before present forKey called run writes chronicle
      · -- A record of another key.
        refine orderly_quiet before present chronicle ?_ (fun reading member => member) same
          (fun _ => live_of_call called) fun forKey' => absurd forKey' forKey
        rw [Keeps.records_written id e silent, if_neg forKey, List.append_nil]
  | error err =>
      refine orderly_quiet before present chronicle ?_ (fun reading member => member) same
        (fun _ => live_of_call called) fun forKey => after_run.symm ▸ ?_
      · exact Log.records_append_of_not_stores _ silent key
      · have stands := before.stands id m present forKey
        have recalls := before.chronicle.recalls id m present
        rw [forKey] at recalls run
        refine stands.unwritten writes fun keeps => ?_
        obtain ⟨x, last, update⟩ := stands.updates recalls called keeps
        rw [update] at run
        exact before.chronicle.keeps.exhausted_of_current last run

theorem orderly_others {now : Instant} {store : MemoryStore} {members : Table Nat Member}
    {facts : List Fact} (before : Orderly key taken c)
    (kept : ∀ id m, members.get? id = some m → c.members.get? id = some m)
    (chronicle : Chronicle ⟨now, store, members, c.log ++ facts⟩)
    (silent : Log.records (c.log ++ facts) key = c.log.records key)
    (stands : ∀ id m, members.get? id = some m →
      m.run.Stands c.now (c.log.records key) taken →
        m.run.Stands now (c.log.records key) taken) :
    Orderly key taken ⟨now, store, members, c.log ++ facts⟩ where
  chronicle := chronicle
  signed := by
    rw [silent]
    exact before.signed
  apart := fun i j m n first second =>
    before.apart i j m n (kept i m first) (kept j n second)
  stands := by
    intro id m found forKey
    rw [silent]
    exact stands id m found (before.stands id m (kept id m found) forKey)

theorem orderly_start {id : Nat} {candidate : Candidate} (before : Orderly key taken c)
    (grants : c.Grants key (.start id candidate)) :
    Orderly key taken ⟨c.now, c.store, c.members.put id { run := .start candidate c.now },
      c.log ++ [.started id]⟩ := by
  have silent : Log.records (c.log ++ [.started id]) key = c.log.records key := by
    have unstored : ¬ Log.Stores [.started id] := Log.not_stores_singleton (by simp)
    exact Log.records_append_of_not_stores _ unstored key
  refine ⟨chronicle_start before.chronicle id candidate, ?_, ?_, ?_⟩
  · rw [silent]
    exact before.signed
  · intro i j m n first second forKey forKey' alive alive' differ
    rw [Table.get?_put] at first second
    split at first <;> split at second
    · rename_i here there
      exact absurd (here.symm.trans there) differ
    · cases Option.some.inj first
      exact ((grants forKey).2 n (Table.mem_values_of_get? second) forKey' alive').symm
    · cases Option.some.inj second
      exact (grants forKey').2 m (Table.mem_values_of_get? first) forKey alive
    · exact before.apart i j m n first second forKey forKey' alive alive' differ
  · intro j n found forKey
    rw [silent]
    rw [Table.get?_put] at found
    split at found
    · cases Option.some.inj found
      exact .start candidate (grants forKey).1
    · exact before.stands j n found forKey

theorem reading_of_isAskedBy {id : Nat} {m : Member} {move : Move} (asks : m.IsAskedBy id move) :
    c.reading? key move = none := by
  cases move with
  | cancel | listen => rfl
  | _ => exact False.elim asks

theorem orderly_step {next : Contest} {move : Move} (before : Orderly key taken c)
    (grants : c.Grants key move)
    (unread : ∀ reading, c.reading? key move = some reading → reading ∉ taken)
    (run : c.punctualStep move = some next) :
    Orderly key ((c.reading? key move).toList ++ taken) next := by
  have step := step_of_punctualStep run
  have chronicle := chronicle_step before.chronicle step
  cases change_of_step step with
  | start unused => exact orderly_start before grants
  | act present acts => exact orderly_act before unread step
  | read present stage reads => exact orderly_read before present stage reads
  | write present called writes => exact orderly_write before present called writes
  | @request _ id m present asks unasked =>
      rw [reading_of_isAskedBy asks]
      refine orderly_quiet before present chronicle ?_ (fun reading member => member) rfl
        (fun alive => alive) fun forKey => before.stands id m present forKey
      rw [Log.records_append_of_not_stores _ (Log.not_stores_requestFacts id m)]
  | repeated present asks asked =>
      rw [reading_of_isAskedBy asks]
      exact before
  | @trigger id m present =>
      have turned : Orderly key taken ⟨c.now, c.store,
          c.members.put id { m with triggered := true }, c.log ++ []⟩ := by
        refine orderly_quiet before present (by rwa [List.append_nil]) ?_
          (fun reading member => member) rfl (fun alive => alive)
          fun forKey => before.stands id m present forKey
        rw [List.append_nil]
      rwa [List.append_nil] at turned
  | @finish id m result present running =>
      refine orderly_quiet before present chronicle ?_ (fun reading member => member) rfl
        (fun alive => alive) fun forKey => before.stands id m present forKey
      have unstored : ¬ Log.Stores [.workEnded id result] :=
        Log.not_stores_singleton (by simp)
      exact Log.records_append_of_not_stores _ unstored key
  | @vanish id m present =>
      have unstored : ¬ Log.Stores [.vanished id] := Log.not_stores_singleton (by simp)
      exact orderly_others before (fun j n found => Table.get?_of_get?_erase found) chronicle
        (Log.records_append_of_not_stores _ unstored key) fun j n found stands => stands
  | @foreign k w =>
      refine orderly_others before (fun j n found => found) chronicle ?_
        fun j n found stands => stands
      cases answer : (c.store.write k w).1 with
      | ok e =>
          refine (Keeps.records_stored none e key).trans ?_
          rw [if_neg grants, List.append_nil]
      | error err => exact congrArg (Log.records · key) (List.append_nil c.log)
  | @pass time =>
      have turned : Orderly key taken ⟨c.now + time.nanos, c.store, c.members, c.log ++ []⟩ := by
        refine orderly_others before (fun j n found => found) (by rwa [List.append_nil])
          (by rw [List.append_nil]) fun j n found stands => ?_
        exact stands.wait (Nat.le_add_right _ _)
          (stage_of_canWait (mayPass_of_punctualStep run found))
      rwa [List.append_nil] at turned

theorem orderly_of_contested (contested : Contested key taken c) : Orderly key taken c := by
  induction contested with
  | empty => exact orderly_empty
  | step before grants unread run ih => exact orderly_step ih grants unread run

theorem Contested.reached (contested : Contested key taken c) : c.Reached := by
  induction contested with
  | empty => exact ⟨[], rfl⟩
  | step before grants unread run ih => exact ih.step _ run

theorem keepsLease_of_isWorking {c : Contest} {id : Nat} {m : Member} (reached : c.Reached)
    (present : c.members.get? id = some m) (working : m.IsWorking) :
    m.run.stage.keepsLease = true := by
  obtain ⟨moves, run⟩ := reached
  have attends := attends_of_career (career_of_punctualPlay run present) working.1
  cases stage : m.run.stage with
  | waiting goal | reading goal _ | writing goal _ =>
      rw [stage] at attends
      exact attends
  | elected | installing | relieving reason | aborting | releasing verdict version lease => rfl
  | broken => exact absurd stage working.2
  | _ =>
      rw [stage] at attends
      cases attends

theorem holder_of_keepsLease {id : Nat} {m : Member} (before : Orderly key taken c)
    (present : c.members.get? id = some m) (forKey : m.run.candidate.resource = key)
    (keeps : m.run.stage.keepsLease = true) :
    ∃ e, c.store.get? key = some e ∧ e.lease.holder = m.run.candidate.identity := by
  obtain ⟨x, last, -, -, holder, -⟩ := (before.stands id m present forKey).holds keeps
  refine ⟨x.entry, ?_, holder⟩
  rw [before.chronicle.keeps.current, last]
  rfl

/-- In a contest for a key the store names every run whose work runs, the work of one run at most
runs, and no run loses the lease. -/
theorem exclusion (contested : Contested key taken c) :
    (∀ id m, c.members.get? id = some m → m.run.candidate.resource = key → m.IsWorking →
      ∃ e, c.store.get? key = some e ∧ e.lease.holder = m.run.candidate.identity) ∧
    (∀ i j m n, c.members.get? i = some m → c.members.get? j = some n →
      m.run.candidate.resource = key → n.run.candidate.resource = key →
        m.IsWorking → n.IsWorking → i = j) ∧
    ∀ id m, c.members.get? id = some m → m.run.candidate.resource = key →
      m.run.stage ≠ .relieving .lost ∧ m.run.stage ≠ .aborting := by
  have orderly := orderly_of_contested contested
  have named : ∀ id m, c.members.get? id = some m → m.run.candidate.resource = key →
      m.IsWorking →
        ∃ e, c.store.get? key = some e ∧ e.lease.holder = m.run.candidate.identity :=
    fun id m present forKey working => holder_of_keepsLease orderly present forKey
      (keepsLease_of_isWorking contested.reached present working)
  refine ⟨named, ?_, ?_⟩
  · intro i j m n first second forKey forKey' working working'
    refine Decidable.byContradiction fun differ => ?_
    obtain ⟨e, current, holder⟩ := named i m first forKey working
    obtain ⟨e', current', holder'⟩ := named j n second forKey' working'
    have same : e = e' := Option.some.inj (current.symm.trans current')
    have live := live_of_keepsLease
      (keepsLease_of_isWorking contested.reached first working)
    have live' := live_of_keepsLease
      (keepsLease_of_isWorking contested.reached second working')
    refine orderly.apart i j m n first second forKey forKey' live live' differ ?_
    rw [← holder, ← holder', same]
  · intro id m present forKey
    have timely := (orderly.stands id m present forKey).timely
    constructor <;> intro stage <;> rw [stage] at timely <;> exact timely

/-- The first run wins its lease and the second finds it held. The first is asked to stop after a
second, renews once more before its work ends, and hands the lease back; the second takes it. -/
def handedOver : List Move :=
  [.start 1 ⟨"a", "test/lease", .ofSeconds 10, .ofSeconds 2⟩,
    .start 2 ⟨"b", "test/lease", .ofSeconds 10, .ofSeconds 2⟩,
    .act 1 (.ofUnix 0 0), .act 2 (.ofUnix 0 0), .act 1 (.ofUnix 0 0), .act 2 (.ofUnix 0 0),
    .call 1, .call 1, .call 2, .act 1 (.ofUnix 0 0), .act 1 (.ofUnix 0 0),
    .pass (.ofSeconds 1), .cancel 1, .act 1 (.ofUnix 1 0), .act 1 (.ofUnix 1 0),
    .pass (.ofSeconds 1), .act 2 (.ofUnix 2 0), .call 2,
    .pass (.ofSeconds 1), .act 1 (.ofUnix 3 0), .call 1, .call 1,
    .finish 1 .done, .act 1 (.ofUnix 3 0), .call 1, .act 1 (.ofUnix 3 0), .act 1 (.ofUnix 3 0),
    .act 1 (.ofUnix 3 0), .pass (.ofSeconds 1), .act 2 (.ofUnix 4 0), .call 2, .call 2,
    .act 2 (.ofUnix 4 0), .act 2 (.ofUnix 4 0)]

theorem exclusion_handedOver :
    ∃ taken c m, Contested "test/lease" taken c ∧ c.members.get? 2 = some m ∧ m.IsWorking ∧
      (∃ e, c.store.get? "test/lease" = some e ∧ e.lease.holder = "b") ∧
      m.run.stage ≠ .relieving .lost ∧ m.run.stage ≠ .aborting := by
  have played : ((empty.contend? "test/lease" [] handedOver).bind fun result =>
      (result.2.members.get? 2).map fun m => (m.run.candidate, decide (m.work = .running),
        decide (m.run.stage = .broken))) =
      some (⟨"b", "test/lease", .ofSeconds 10, .ofSeconds 2⟩, true, false) := by
    decide +kernel
  obtain ⟨⟨taken, c⟩, run, rest⟩ := Option.bind_eq_some_iff.mp played
  obtain ⟨m, present, found⟩ := Option.map_eq_some_iff.mp rest
  simp only [Prod.mk.injEq, decide_eq_true_eq, decide_eq_false_iff_not] at found
  obtain ⟨candidate, working⟩ := found
  have contested := contested_of_contend? .empty run
  have forKey : m.run.candidate.resource = "test/lease" := by rw [candidate]
  obtain ⟨named, -, kept⟩ := exclusion contested
  obtain ⟨e, current, holder⟩ := named 2 m present forKey working
  exact ⟨taken, c, m, contested, present, working, ⟨e, current, holder.trans (by rw [candidate])⟩,
    kept 2 m present forKey⟩

end Contest

end LeaderLease
