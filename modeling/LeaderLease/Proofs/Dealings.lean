import LeaderLease.Proofs.Chronicle

/-!
# What befalls one run

Two views of a contest from the side of one member. `Contest.Part` says what a move is to a member
that is there after it: its start, a turn of its own, or facts about others. `Dealing` says what a
move does to a run and the records of its key together, with the answers that the store gave: the
run steps by itself, reads the last record, stores a new one or is refused, or somebody else stores.
`part_of_step` and `dealings_of_play` carry what holds in these views over to any moves in any
order.
-/

set_option autoImplicit false

namespace LeaderLease

/-- A move as the member sees it that is there after the move. -/
inductive Contest.Part (id : Nat) (c next : Contest) (m : Member) : Prop where
  | start {candidate : Candidate} (fresh : m = { run := .start candidate c.now })
      (unused : Fact.started id ∉ c.log) (log : next.log = c.log ++ [.started id])
      (now : next.now = c.now)
  | turn {before : Member} {facts : List Fact} (present : c.members.get? id = some before)
      (turn : Turn id c.now before m facts) (log : next.log = c.log ++ facts)
      (now : next.now = c.now)
  | aside {facts : List Fact} (present : c.members.get? id = some m)
      (elsewhere : ∀ fact ∈ facts, fact.member? ≠ some id) (log : next.log = c.log ++ facts)
      (now : c.now ≤ next.now)

/-- What a run of the member and the records of its key go through in one move. -/
inductive Dealing (id : Nat) (r : Run) (records : List Record) : Run → List Record → Prop where
  | idle : Dealing id r records r records
  | act {v : View} {next : Run} {effects : List Effect} (acts : r.Acts v next effects) :
      Dealing id r records next records
  | read {now : Instant} {goal : Goal} {wall : Timestamp} {next : Run} {effects : List Effect}
      (stage : r.stage = .reading goal wall)
      (reads : r.Reads now goal wall (.ok (records.getLast?.map (·.entry))) next effects) :
      Dealing id r records next records
  /-- Whoever stores while there are records replaces the last one. -/
  | stored {now : Instant} {w : Write} {e : Entry} {next : Run} {effects : List Effect}
      (called : r.call? = some (.write w)) (writes : r.Writes now (.ok e) next effects)
      (version : e.version = records.length + 1) (lease : e.lease = w.lease)
      (current : ∀ x ∈ records, x.entry.version = records.length →
        w = .update x.entry.version w.lease) :
      Dealing id r records next (records ++ [⟨some id, now, e⟩])
  /-- An update of the last record fails only at the end of the versions. -/
  | refused {now : Instant} {w : Write} {err : StoreError} {next : Run} {effects : List Effect}
      (called : r.call? = some (.write w)) (writes : r.Writes now (.error err) next effects)
      (current : ∀ x l, records.getLast? = some x → w = .update x.entry.version l →
        err = .exhausted) :
      Dealing id r records next records
  | other {z : Record} (version : z.entry.version = records.length + 1)
      (author : z.author ≠ some id) : Dealing id r records r (records ++ [z])

theorem Turn.candidate {id : Nat} {now : Instant} {m next : Member} {facts : List Fact}
    (turn : Turn id now m next facts) : next.run.candidate = m.run.candidate := by
  cases turn with
  | act acts =>
      rw [Member.after_run]
      exact acts.candidate
  | read stage reads =>
      rw [Member.after_run]
      exact reads.candidate
  | write called writes =>
      rw [Member.after_run]
      exact writes.candidate
  | request | trigger | finish => rfl

theorem Dealing.candidate {id : Nat} {r r' : Run} {records records' : List Record}
    (dealing : Dealing id r records r' records') : r'.candidate = r.candidate := by
  cases dealing with
  | idle | other => rfl
  | act acts => exact acts.candidate
  | read stage reads => exact reads.candidate
  | stored called writes | refused called writes => exact writes.candidate

namespace Contest

/-- What holds of the empty contest and is kept by every step of a contest that can be reached. -/
theorem reachable_induction {P : Contest → Prop} (start : P .empty)
    (step : ∀ {moves c next move}, Contest.empty.play moves = some c → P c →
      c.step move = some next → P next)
    {moves : List Move} {c : Contest} (run : Contest.empty.play moves = some c) : P c := by
  suffices both : (∃ moves, Contest.empty.play moves = some c) ∧ P c from both.2
  refine play_induction (P := fun c => (∃ moves, Contest.empty.play moves = some c) ∧ P c)
    ⟨⟨[], rfl⟩, start⟩ ?_ run
  rintro c next move ⟨⟨before, reached⟩, holds⟩ last
  refine ⟨⟨before ++ [move], ?_⟩, step reached holds last⟩
  rw [play_append, reached]
  simp [play, last]

/-! ## The part of a member -/

section Part

variable {c : Contest} {store : MemoryStore} {id i : Nat} {m next : Member} {facts : List Fact}

theorem part_of_turn (present : c.members.get? i = some m) (turn : Turn i c.now m next facts)
    {n : Member} (found : (c.members.put i next).get? id = some n) :
    Part id c ⟨c.now, store, c.members.put i next, c.log ++ facts⟩ n := by
  rw [Table.get?_put] at found
  split at found
  · rename_i same
    subst same
    cases Option.some.inj found
    exact .turn present turn rfl rfl
  · rename_i other
    refine .aside found (fun fact member about => other ?_) rfl (Nat.le_refl _)
    exact Option.some.inj ((member_of_turn turn fact member).symm.trans about)

theorem part_of_step {c next : Contest} {move : Move} {id : Nat} {n : Member}
    (run : c.step move = some next) (found : next.members.get? id = some n) :
    Part id c next n := by
  cases change_of_step run with
  | @start i candidate unused =>
      rw [Table.get?_put] at found
      split at found
      · rename_i same
        subst same
        cases Option.some.inj found
        exact .start rfl unused rfl rfl
      · rename_i other
        refine .aside found (fun fact member about => other ?_) rfl (Nat.le_refl _)
        cases List.mem_singleton.mp member
        exact Option.some.inj about
  | act present acts => exact part_of_turn present (.act acts) found
  | read present stage reads => exact part_of_turn present (.read stage reads) found
  | write present called writes => exact part_of_turn present (.write called writes) found
  | request present asks unasked => exact part_of_turn present (.request unasked) found
  | repeated present asks asked =>
      have none : ∀ fact ∈ ([] : List Fact), fact.member? ≠ some id := by simp
      exact .aside found none (List.append_nil _).symm (Nat.le_refl _)
  | @trigger i m present =>
      have part : Part id c ⟨c.now, c.store, c.members.put i { m with triggered := true },
          c.log ++ []⟩ n := part_of_turn present .trigger found
      rwa [List.append_nil] at part
  | finish present running => exact part_of_turn present (.finish running) found
  | @vanish i m present =>
      refine .aside (Table.get?_of_get?_erase found) (fun fact member about => ?_) rfl
        (Nat.le_refl _)
      cases List.mem_singleton.mp member
      cases Option.some.inj about
      rw [Table.get?_erase, if_pos rfl] at found
      cases found
  | @foreign key w =>
      refine .aside found (fun fact member about => ?_) rfl (Nat.le_refl _)
      cases answer : (c.store.write key w).1 with
      | ok e =>
          rw [answer] at member
          cases List.mem_singleton.mp member
          cases about
      | error e =>
          rw [answer] at member
          cases member
  | @pass time =>
      have none : ∀ fact ∈ ([] : List Fact), fact.member? ≠ some id := by simp
      exact .aside found none (List.append_nil _).symm (Nat.le_add_right _ _)

end Part

/-! ## Dealings with the records of a key -/

section Dealings

variable {P : Nat → Run → List Record → Prop}

/-- Every member has come by dealings to where it is. -/
structure Deals (P : Nat → Run → List Record → Prop) (c : Contest) : Prop where
  chronicle : c.Chronicle
  deals : ∀ id m, c.members.get? id = some m →
    P id m.run (c.log.records m.run.candidate.resource)

variable {c : Contest}

theorem Chronicle.unauthored {id : Nat} {key : String} (chronicle : c.Chronicle)
    (unused : Fact.started id ∉ c.log) : ∀ x ∈ c.log.records key, x.author ≠ some id := by
  intro x member author
  obtain ⟨fact, inLog, about⟩ := Log.fact_of_author member author
  exact unused (chronicle.started fact inLog id about)

variable (deal : ∀ {id r records r' records'}, r.Recalls records → Numbered records →
  Dealing id r records r' records' → P id r records → P id r' records')

include deal

theorem deals_quiet {id : Nat} {m : Member} (next : Member) {facts : List Fact}
    (before : c.Deals P) (present : c.members.get? id = some m) (silent : ¬ Log.Stores facts)
    (same : next.run.candidate = m.run.candidate)
    (dealing : Dealing id m.run (c.log.records m.run.candidate.resource) next.run
      (c.log.records m.run.candidate.resource)) {j : Nat} {n : Member}
    (found : (c.members.put id next).get? j = some n) :
    P j n.run (Log.records (c.log ++ facts) n.run.candidate.resource) := by
  rw [Log.records_append_of_not_stores _ silent]
  rw [Table.get?_put] at found
  split at found
  · rename_i sameId
    subst sameId
    cases Option.some.inj found
    rw [same]
    have recalls := before.chronicle.recalls id m present
    have numbered := before.chronicle.keeps.numbered m.run.candidate.resource
    exact deal recalls numbered dealing (before.deals id m present)
  · exact before.deals j n found

theorem deals_other {key : String} {w : Write} {e : Entry} {store : MemoryStore} {now : Instant}
    {facts : Log} {j : Nat} {n : Member} (author : Option Nat) (before : c.Deals P)
    (run : c.store.write key w = (.ok e, store)) (other : author ≠ some j)
    (grown : ∀ key', Log.records (c.log ++ facts) key' =
      c.log.records key' ++ if key = key' then [⟨author, now, e⟩] else [])
    (found : c.members.get? j = some n) :
    P j n.run (Log.records (c.log ++ facts) n.run.candidate.resource) := by
  have keeps := before.chronicle.keeps
  rw [grown]
  by_cases same : key = n.run.candidate.resource
  · rw [if_pos same]
    subst same
    have version := keeps.next_version run
    exact deal (before.chronicle.recalls j n found) (keeps.numbered _) (.other version other)
      (before.deals j n found)
  · rw [if_neg same, List.append_nil]
    exact before.deals j n found

theorem deals_write {id : Nat} {m : Member} {w : Write} {next : Run} {effects : List Effect}
    (before : c.Deals P) (present : c.members.get? id = some m)
    (called : m.run.call? = some (.write w))
    (writes : m.run.Writes c.now (c.store.write m.run.candidate.resource w).1 next effects)
    {j : Nat} {n : Member}
    (found : (c.members.put id (m.after id (next, effects))).get? j = some n) :
    P j n.run (Log.records (c.log ++ (writeFacts id c.now m.run.candidate.resource
      (c.store.write m.run.candidate.resource w).1 ++ m.facts id c.now (next, effects)))
      n.run.candidate.resource) := by
  have keeps := before.chronicle.keeps
  have silent := Log.not_stores_facts id c.now m (next, effects)
  have recalls := before.chronicle.recalls id m present
  generalize run : c.store.write m.run.candidate.resource w = answered at writes ⊢
  obtain ⟨answer, store⟩ := answered
  cases answer with
  | ok e =>
      rw [Table.get?_put] at found
      split at found
      · rename_i sameId
        subst sameId
        cases Option.some.inj found
        rw [Member.after_run, writes.candidate, Keeps.records_written id e silent, if_pos rfl]
        obtain ⟨-, stored, -⟩ := MemoryStore.write_ok run
        have dealing : Dealing id m.run _ next _ := .stored called writes
          (keeps.next_version run) stored fun x member last => keeps.replaces run member last
        exact deal recalls (keeps.numbered _) dealing (before.deals id m present)
      · rename_i other
        have differ : some id ≠ some j := fun same => other (Option.some.inj same)
        exact deals_other deal (some id) before run differ (Keeps.records_written id e silent) found
  | error err =>
      refine deals_quiet deal _ before present silent ?_ ?_ found
      · rw [Member.after_run]
        exact writes.candidate
      · rw [Member.after_run]
        refine .refused called writes fun x l last update => ?_
        rw [update] at run
        exact keeps.exhausted_of_current last run

theorem deals_step {next : Contest} {move : Move}
    (start : ∀ id candidate now records, (∀ x ∈ records, x.author ≠ some id) →
      P id (.start candidate now) records)
    (before : c.Deals P) (run : c.step move = some next) : next.Deals P := by
  refine ⟨chronicle_step before.chronicle run, fun j n found => ?_⟩
  cases change_of_step run with
  | @start id candidate unused =>
      have silent : ¬ Log.Stores [.started id] := Log.not_stores_singleton (by simp)
      rw [Log.records_append_of_not_stores _ silent]
      rw [Table.get?_put] at found
      split at found
      · rename_i sameId
        subst sameId
        cases Option.some.inj found
        exact start id candidate c.now _ (before.chronicle.unauthored unused)
      · exact before.deals j n found
  | act present acts =>
      refine deals_quiet deal _ before present (Log.not_stores_facts _ _ _ _) ?_ ?_ found
      · rw [Member.after_run]
        exact acts.candidate
      · rw [Member.after_run]
        exact .act acts
  | @read id m goal wall next effects present stage reads =>
      have silent := Log.not_stores_append
        (Log.not_stores_readFacts id c.now (.ok (c.store.get? m.run.candidate.resource)))
        (Log.not_stores_facts id c.now m (next, effects))
      refine deals_quiet deal _ before present silent ?_ ?_ found
      · rw [Member.after_run]
        exact reads.candidate
      · rw [Member.after_run]
        rw [before.chronicle.keeps.current] at reads
        exact .read stage reads
  | write present called writes => exact deals_write deal before present called writes found
  | @request move id m present asks unasked =>
      exact deals_quiet deal { m with scope := true, workScope := true } before present
        (Log.not_stores_requestFacts id m) rfl .idle found
  | repeated present asks asked => exact before.deals j n found
  | @trigger id m present =>
      have kept := deals_quiet deal { m with triggered := true } before present
        Log.not_stores_nil rfl .idle found
      rwa [List.append_nil] at kept
  | @finish id m result present running =>
      have silent : ¬ Log.Stores [.workEnded id result] := Log.not_stores_singleton (by simp)
      exact deals_quiet deal { m with work := .finished result } before present silent
        rfl .idle found
  | @vanish id m present =>
      have silent : ¬ Log.Stores [.vanished id] := Log.not_stores_singleton (by simp)
      rw [Log.records_append_of_not_stores _ silent]
      exact before.deals j n (Table.get?_of_get?_erase found)
  | @foreign key w =>
      generalize run : c.store.write key w = answered
      obtain ⟨answer, store⟩ := answered
      cases answer with
      | ok e =>
          have other : none ≠ some j := by simp
          exact deals_other deal none before run other (Keeps.records_stored none e) found
      | error err =>
          simp only [foreignFacts, List.append_nil]
          exact before.deals j n found
  | pass => exact before.deals j n found

/-- What a run starts with and keeps in all its dealings holds after any moves in any order. -/
theorem dealings_of_play
    (start : ∀ id candidate now records, (∀ x ∈ records, x.author ≠ some id) →
      P id (.start candidate now) records)
    {moves : List Move} (run : Contest.empty.play moves = some c) : c.Deals P := by
  refine play_induction ⟨chronicle_empty, fun id m present => ?_⟩
    (fun before run => deals_step deal start before run) run
  cases present

end Dealings

end Contest

end LeaderLease
