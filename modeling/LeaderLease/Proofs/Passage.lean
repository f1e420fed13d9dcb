import LeaderLease.Proofs.Dealings
import Mathlib.Data.List.Induction

/-!
# On the way of a play

`Contest.Passes moves before c move` says that a play of `moves` comes, after the moves in `before`,
to the contest `c` and makes `move` there. So a statement can be about the moment of a step as well
as about the end of the play. `Contest.Bearing` says what one move is to a member that is there after
it, with the move and the log named, and `Contest.Growth` what it adds to the records of a key.
-/

set_option autoImplicit false

namespace LeaderLease

/-- A move that asks the member to stop if it is possible at all. -/
def Move.Asks (id : Nat) : Move → Prop
  | .cancel i | .listen i => i = id
  | _ => False

theorem Member.IsAskedBy.asks {id : Nat} {m : Member} {move : Move} (asked : m.IsAskedBy id move) :
    move.Asks id := by
  cases move with
  | cancel i => exact asked
  | listen i => exact asked.1
  | _ => exact False.elim asked

/-- The member that a move is about. -/
def Move.member? : Move → Option Nat
  | .start id _ | .act id _ | .call id | .cancel id | .trigger id | .listen id | .finish id _
  | .vanish id => some id
  | .foreign _ _ | .pass _ => none

theorem Move.Asks.member? {id : Nat} {move : Move} (asks : move.Asks id) :
    move.member? = some id := by
  cases move with
  | cancel i | listen i => exact congrArg some asks
  | _ => exact False.elim asks

namespace Contest

def Passes (moves before : List Move) (c : Contest) (move : Move) : Prop :=
  before ++ [move] <+: moves ∧ Contest.empty.play before = some c

namespace Passes

variable {moves before : List Move} {c : Contest} {move : Move}

theorem trans {all : List Move} (passes : Passes moves before c move) (part : moves <+: all) :
    Passes all before c move :=
  ⟨passes.1.trans part, passes.2⟩

theorem mono (passes : Passes moves before c move) (more : List Move) :
    Passes (moves ++ more) before c move :=
  passes.trans (List.prefix_append moves more)

theorem last (run : Contest.empty.play moves = some c) (move : Move) :
    Passes (moves ++ [move]) moves c move :=
  ⟨List.prefix_rfl, run⟩

/-- The rest of the play starts with the move. -/
theorem rest {final : Contest} (passes : Passes moves before c move)
    (run : Contest.empty.play moves = some final) :
    ∃ next after, c.step move = some next ∧ next.play after = some final := by
  obtain ⟨⟨after, rfl⟩, reached⟩ := passes
  rw [List.append_assoc, play_append, reached] at run
  obtain ⟨here, same, rest⟩ := Option.bind_eq_some_iff.mp run
  cases Option.some.inj same
  obtain ⟨next, step, rest⟩ := Option.bind_eq_some_iff.mp rest
  exact ⟨next, after, step, rest⟩

end Passes

/-- What holds of the empty contest, and is kept by every step that follows a play, holds after any
moves in any order; it may speak of the moves. -/
theorem moves_induction {P : List Move → Contest → Prop} (start : P [] .empty)
    (step : ∀ {moves c next move}, Contest.empty.play moves = some c → P moves c →
      c.step move = some next → P (moves ++ [move]) next)
    {moves : List Move} {c : Contest} (run : Contest.empty.play moves = some c) : P moves c := by
  induction moves using List.reverseRecOn generalizing c with
  | nil =>
      cases Option.some.inj run
      exact start
  | append_singleton moves move ih =>
      rw [play_append] at run
      obtain ⟨before, reached, run⟩ := Option.bind_eq_some_iff.mp run
      obtain ⟨next, last, same⟩ := Option.bind_eq_some_iff.mp run
      cases Option.some.inj same
      exact step reached (ih reached) last

/-! ## What a move is to one member -/

/-- What a move is to the member that is there after it. -/
inductive Bearing (id : Nat) (c next : Contest) : Move → Member → Prop where
  | start {candidate : Candidate} (unused : Fact.started id ∉ c.log)
      (log : next.log = c.log ++ [.started id]) :
      Bearing id c next (.start id candidate) { run := .start candidate c.now }
  | act {wall : Timestamp} {m : Member} {r : Run} {effects : List Effect}
      (present : c.members.get? id = some m) (acts : m.run.Acts (m.view c.now wall) r effects)
      (log : next.log = c.log ++ m.facts id c.now (r, effects)) :
      Bearing id c next (.act id wall) (m.after id (r, effects))
  | read {m : Member} {goal : Goal} {wall : Timestamp} {r : Run} {effects : List Effect}
      (present : c.members.get? id = some m) (stage : m.run.stage = .reading goal wall)
      (reads : m.run.Reads c.now goal wall (.ok (c.store.get? m.run.candidate.resource)) r effects)
      (log : next.log = c.log ++
        (readFacts id c.now (.ok (c.store.get? m.run.candidate.resource)) ++
          m.facts id c.now (r, effects))) :
      Bearing id c next (.call id) (m.after id (r, effects))
  | write {m : Member} {w : Write} {r : Run} {effects : List Effect}
      (present : c.members.get? id = some m) (called : m.run.call? = some (.write w))
      (writes : m.run.Writes c.now (c.store.write m.run.candidate.resource w).1 r effects)
      (log : next.log = c.log ++
        (writeFacts id c.now m.run.candidate.resource
            (c.store.write m.run.candidate.resource w).1 ++
          m.facts id c.now (r, effects))) :
      Bearing id c next (.call id) (m.after id (r, effects))
  | request {move : Move} {m : Member} (present : c.members.get? id = some m)
      (asks : move.Asks id) (unasked : m.scope = false)
      (log : next.log = c.log ++ m.requestFacts id) :
      Bearing id c next move { m with scope := true, workScope := true }
  | trigger {m : Member} (present : c.members.get? id = some m) (log : next.log = c.log) :
      Bearing id c next (.trigger id) { m with triggered := true }
  | finish {m : Member} {result : WorkResult} (present : c.members.get? id = some m)
      (running : m.work = .running) (log : next.log = c.log ++ [.workEnded id result]) :
      Bearing id c next (.finish id result) { m with work := .finished result }
  | aside {move : Move} {n : Member} {facts : List Fact} (present : c.members.get? id = some n)
      (repeated : move.member? = some id → move.Asks id ∧ n.scope = true)
      (elsewhere : ∀ fact ∈ facts, fact.member? ≠ some id) (log : next.log = c.log ++ facts) :
      Bearing id c next move n

section Bearing

variable {c : Contest} {store : MemoryStore} {id i : Nat} {move : Move} {m n : Member}
  {facts : List Fact}

/-- A turn of one member, seen by a member that is there after it. -/
theorem bearing_of_put {now : Instant} (own : i = id → n = m →
      Bearing id c ⟨now, store, c.members.put i m, c.log ++ facts⟩ move n)
    (mover : move.member? = some i) (about : ∀ fact ∈ facts, fact.member? = some i)
    (found : (c.members.put i m).get? id = some n) :
    Bearing id c ⟨now, store, c.members.put i m, c.log ++ facts⟩ move n := by
  rw [Table.get?_put] at found
  split at found
  · rename_i same
    exact own same (Option.some.inj found).symm
  · rename_i other
    refine .aside found (fun moved => ?_) (fun fact member elsewhere => ?_) rfl
    · exact absurd (Option.some.inj (mover.symm.trans moved)) other
    · exact other (Option.some.inj ((about fact member).symm.trans elsewhere))

theorem bearing_of_step {next : Contest} (run : c.step move = some next)
    (found : next.members.get? id = some n) : Bearing id c next move n := by
  cases change_of_step run with
  | @start i candidate unused =>
      refine bearing_of_put ?_ rfl (by simp [Fact.member?]) found
      rintro rfl rfl
      exact .start unused rfl
  | @act i wall m r effects present acts =>
      refine bearing_of_put ?_ rfl member_of_facts found
      rintro rfl rfl
      exact .act present acts rfl
  | @read i m goal wall r effects present stage reads =>
      refine bearing_of_put ?_ rfl (member_of_turn (.read stage reads)) found
      rintro rfl rfl
      exact .read present stage reads rfl
  | @write i m w r effects present called writes =>
      refine bearing_of_put ?_ rfl (member_of_turn (.write called writes)) found
      rintro rfl rfl
      exact .write present called writes rfl
  | @request _ i m present asks unasked =>
      have turn : Turn i c.now m { m with scope := true, workScope := true } (m.requestFacts i) :=
        .request unasked
      refine bearing_of_put ?_ asks.asks.member? (member_of_turn turn) found
      rintro rfl rfl
      exact .request present asks.asks unasked rfl
  | @repeated _ i m present asks asked =>
      refine .aside found (fun moved => ?_) (by simp) (List.append_nil _).symm
      cases Option.some.inj (asks.asks.member?.symm.trans moved)
      cases Option.some.inj (present.symm.trans found)
      exact ⟨asks.asks, asked⟩
  | @trigger i m present =>
      have bearing : Bearing id c ⟨c.now, c.store, c.members.put i { m with triggered := true },
          c.log ++ []⟩ (.trigger i) n := by
        refine bearing_of_put ?_ rfl (by simp) found
        rintro rfl rfl
        exact .trigger present (List.append_nil _)
      rwa [List.append_nil] at bearing
  | @finish i m result present running =>
      refine bearing_of_put ?_ rfl (by simp [Fact.member?]) found
      rintro rfl rfl
      exact .finish present running rfl
  | @vanish i m present =>
      have other : i ≠ id := by
        rintro rfl
        rw [Table.get?_erase, if_pos rfl] at found
        cases found
      refine .aside (Table.get?_of_get?_erase found) (fun moved => ?_) (fun fact member about => ?_)
        rfl
      · exact absurd (Option.some.inj moved) other
      · cases List.mem_singleton.mp member
        exact other (Option.some.inj about)
  | @foreign key w =>
      refine .aside found nofun (fun fact member about => ?_) rfl
      cases answer : (c.store.write key w).1 with
      | ok e =>
          rw [answer] at member
          cases List.mem_singleton.mp member
          cases about
      | error e =>
          rw [answer] at member
          cases member
  | pass => exact .aside found nofun (by simp) (List.append_nil _).symm

theorem log_of_step {next : Contest} (run : c.step move = some next) :
    ∃ facts, next.log = c.log ++ facts := by
  cases change_of_step run with
  | repeated | trigger | pass => exact ⟨[], (List.append_nil _).symm⟩
  | _ => exact ⟨_, rfl⟩

/-- What a member has from its start on, and keeps in every move, it has after any moves; it may
speak of the moves and of the contest. -/
theorem member_induction {P : List Move → Contest → Member → Prop}
    (step : ∀ {moves c next move n}, Contest.empty.play moves = some c →
      c.step move = some next → Bearing id c next move n →
      (∀ m, c.members.get? id = some m → P moves c m) → P (moves ++ [move]) next n)
    {moves : List Move} (run : Contest.empty.play moves = some c)
    (present : c.members.get? id = some m) : P moves c m := by
  suffices all : ∀ m, c.members.get? id = some m → P moves c m from all m present
  refine moves_induction (P := fun moves c => ∀ m, c.members.get? id = some m → P moves c m) ?_ ?_
    run
  · intro m present
    cases present
  · intro moves c next move reached ih last n found
    exact step reached last (bearing_of_step last found) ih

theorem log_prefix_of_play {final : Contest} {moves : List Move}
    (run : c.play moves = some final) : c.log <+: final.log := by
  induction moves generalizing c with
  | nil =>
      cases Option.some.inj run
      exact List.prefix_rfl
  | cons move moves ih =>
      obtain ⟨next, first, rest⟩ := Option.bind_eq_some_iff.mp run
      obtain ⟨facts, log⟩ := log_of_step first
      refine List.IsPrefix.trans ?_ (ih rest)
      rw [log]
      exact List.prefix_append _ _

/-- A member makes no move before its start. -/
theorem present_of_step {next : Contest} (run : c.step move = some next)
    (mover : move.member? = some id) (begun : ∀ candidate, move ≠ .start id candidate) :
    ∃ m, c.members.get? id = some m := by
  cases move with
  | start i candidate =>
      cases Option.some.inj mover
      exact absurd rfl (begun candidate)
  | foreign | pass => cases mover
  | _ =>
      cases Option.some.inj mover
      obtain ⟨m, present, -⟩ := Option.bind_eq_some_iff.mp run
      exact ⟨m, present⟩

theorem Passes.started {moves before : List Move} {final : Contest}
    (passes : Passes moves before c move) (run : Contest.empty.play moves = some final)
    (mover : move.member? = some id) (begun : ∀ candidate, move ≠ .start id candidate) :
    Fact.started id ∈ final.log := by
  obtain ⟨next, after, step, rest⟩ := passes.rest run
  obtain ⟨m, present⟩ := present_of_step step mover begun
  obtain ⟨facts, log⟩ := log_of_step step
  apply (log_prefix_of_play rest).subset
  rw [log]
  exact List.mem_append_left _ ((chronicle_of_play passes.2).present id m present)

/-- A move of a play was made at some contest on its way. -/
theorem passes_of_mem {moves : List Move} (run : Contest.empty.play moves = some c)
    (member : move ∈ moves) : ∃ before here, Passes moves before here move := by
  obtain ⟨before, after, rfl⟩ := List.append_of_mem member
  rw [play_append] at run
  obtain ⟨here, reached, -⟩ := Option.bind_eq_some_iff.mp run
  refine ⟨before, here, ⟨after, ?_⟩, reached⟩
  rw [List.append_assoc, List.singleton_append]

theorem Passes.of_concat {moves before : List Move} {last : Move}
    (passes : Passes (moves ++ [last]) before c move) :
    Passes moves before c move ∨ before = moves ∧ move = last := by
  rcases List.prefix_concat_iff.mp passes.1 with same | earlier
  · exact .inr (List.append_singleton_inj.mp same)
  · exact .inl ⟨earlier, passes.2⟩

theorem Bearing.candidate {next : Contest} (bearing : Bearing id c next move n) :
    move = .start id n.run.candidate ∨
      ∃ m, c.members.get? id = some m ∧ n.run.candidate = m.run.candidate := by
  cases bearing with
  | start => exact .inl rfl
  | act present acts => exact .inr ⟨_, present, by rw [Member.after_run, acts.candidate]⟩
  | read present stage reads => exact .inr ⟨_, present, by rw [Member.after_run, reads.candidate]⟩
  | write present called writes =>
      exact .inr ⟨_, present, by rw [Member.after_run, writes.candidate]⟩
  | request present | trigger present | finish present | aside present =>
      exact .inr ⟨_, present, rfl⟩

/-- A member that is there was started by one of the moves. -/
theorem start_mem {moves : List Move} (run : Contest.empty.play moves = some c)
    (present : c.members.get? id = some m) : .start id m.run.candidate ∈ moves := by
  refine member_induction (P := fun moves _ m => .start id m.run.candidate ∈ moves) ?_ run present
  intro moves c next move n reached last bearing ih
  rcases bearing.candidate with rfl | ⟨m, present, same⟩
  · exact List.mem_append_right _ (List.mem_singleton_self _)
  · rw [same]
    exact List.mem_append_left _ (ih m present)

end Bearing

/-! ## What a move adds to the records of a key -/

inductive Growth (key : String) (c next : Contest) : Move → Prop where
  | none {move : Move} (same : next.log.records key = c.log.records key) : Growth key c next move
  | own {id : Nat} {m : Member} {w : Write} {e : Entry} {store : MemoryStore}
      (present : c.members.get? id = some m) (forKey : m.run.candidate.resource = key)
      (called : m.run.call? = some (.write w)) (wrote : c.store.write key w = (.ok e, store))
      (grown : next.log.records key = c.log.records key ++ [⟨some id, c.now, e⟩]) :
      Growth key c next (.call id)
  | foreign {w : Write} {e : Entry} {store : MemoryStore}
      (wrote : c.store.write key w = (.ok e, store))
      (grown : next.log.records key = c.log.records key ++ [⟨Option.none, c.now, e⟩]) :
      Growth key c next (.foreign key w)

theorem growth_of_step {c next : Contest} {move : Move} (run : c.step move = some next)
    (key : String) : Growth key c next move := by
  have quiet : ∀ facts : Log, ¬ facts.Stores →
      Log.records (c.log ++ facts) key = c.log.records key :=
    fun facts silent => c.log.records_append_of_not_stores silent key
  cases change_of_step run with
  | start => exact .none (quiet _ (Log.not_stores_singleton (by simp)))
  | act => exact .none (quiet _ (Log.not_stores_facts _ _ _ _))
  | read =>
      exact .none (quiet _ (Log.not_stores_append (Log.not_stores_readFacts _ _ _)
        (Log.not_stores_facts _ _ _ _)))
  | @write id m w after effects present called writes =>
      have silent := Log.not_stores_facts id c.now m (after, effects)
      generalize wrote : c.store.write m.run.candidate.resource w = answered
      obtain ⟨answer, store⟩ := answered
      cases answer with
      | error err => exact .none (quiet _ silent)
      | ok e =>
          by_cases forKey : m.run.candidate.resource = key
          · subst forKey
            refine .own present rfl called wrote ?_
            rw [Keeps.records_written id e silent, if_pos rfl]
          · refine .none ?_
            rw [Keeps.records_written id e silent, if_neg forKey, List.append_nil]
  | request => exact .none (quiet _ (Log.not_stores_requestFacts _ _))
  | repeated | trigger | pass => exact .none rfl
  | finish | vanish => exact .none (quiet _ (Log.not_stores_singleton (by simp)))
  | @foreign k w =>
      generalize wrote : c.store.write k w = answered
      obtain ⟨answer, store⟩ := answered
      cases answer with
      | error err => exact .none (quiet _ Log.not_stores_nil)
      | ok e =>
          by_cases forKey : k = key
          · subst forKey
            refine .foreign wrote ?_
            simp only [foreignFacts, Keeps.records_stored, if_true]
          · refine .none ?_
            simp only [foreignFacts, Keeps.records_stored, if_neg forKey, List.append_nil]

end Contest

end LeaderLease
