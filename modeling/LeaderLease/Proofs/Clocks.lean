import LeaderLease.Proofs.Chronicle
import LeaderLease.Proofs.Undated

/-!
# What the wall clock decides

The times in a lease come from the wall clock of whoever wrote it, and a run compares leases with
their times. So an execution does not depend on what the wall clocks show, as long as the times that
one identity writes under one key coincide where they did before: `play_agrees` proves it for any
moves in any order. A clock that stands still makes a renewal look as if it had never been made.
-/

set_option autoImplicit false

namespace LeaderLease

/-! ## Without the times -/

def Lease.undated (l : Lease) : Lease := { l with acquired := .ofUnix 0 0, renewed := .ofUnix 0 0 }

def Entry.undated (e : Entry) : Entry := { e with lease := e.lease.undated }

def Write.undated : Write → Write
  | .create l => .create l.undated
  | .update version l => .update version l.undated

def Stage.undated : Stage → Stage
  | .reading goal _ => .reading goal (.ofUnix 0 0)
  | .writing goal w => .writing goal w.undated
  | .releasing verdict version l => .releasing verdict version l.undated
  | stage => stage

/-- What was seen and reported; since when it has not changed is left out. -/
def Sighting.undated (s : Sighting) : Sighting := ⟨s.seen.map Entry.undated, 0, s.reported⟩

def Run.undated (r : Run) : Run := ⟨r.candidate, r.sighting.undated, r.stage.undated⟩

def Member.undated (m : Member) : Member := { m with run := m.run.undated }

def Fact.undated : Fact → Fact
  | .observed id time e => .observed id time e.undated
  | .stored id time key e => .stored id time key e.undated
  | fact => fact

/-- The move without what the wall clock shows. -/
def Move.undated : Move → Move
  | .act id _ => .act id (.ofUnix 0 0)
  | .foreign key w => .foreign key w.undated
  | move => move

/-- Two contests are the same but for the times in leases. -/
structure Contest.Agrees (c c' : Contest) : Prop where
  now : c.now = c'.now
  store : ∀ key, (c.store.get? key).map Entry.undated = (c'.store.get? key).map Entry.undated
  members : ∀ id,
    (c.members.get? id).map Member.undated = (c'.members.get? id).map Member.undated
  log : c.log.map Fact.undated = c'.log.map Fact.undated

section Undated

variable {pairs : List (Stamp × Stamp)} {key : String}

theorem Lease.Alike.undated {l l' : Lease} (alike : l.Alike pairs key l') :
    l.undated = l'.undated := by
  simp only [Lease.undated, alike.holder, alike.duration, alike.transitions]

theorem Entry.Alike.undated {e e' : Entry} (alike : e.Alike pairs key e') :
    e.undated = e'.undated := by
  simp only [Entry.undated, alike.version, alike.lease.undated]

theorem map_eq_of_rel {α β : Type} {R : α → α → Prop} {f : α → β} {found found' : Option α}
    (both : Option.Rel R found found') (same : ∀ a a', R a a' → f a = f a') :
    found.map f = found'.map f := by
  cases both with
  | none => rfl
  | some alike => exact congrArg some (same _ _ alike)

theorem Write.Alike.undated {w w' : Write} (alike : w.Alike pairs key w') :
    w.undated = w'.undated := by
  cases alike with
  | create lease | update version lease => simp only [Write.undated, lease.undated]

theorem Stage.Alike.undated {identity : String} {stage stage' : Stage}
    (alike : stage.Alike pairs key identity stage') : stage.undated = stage'.undated := by
  cases alike with
  | same | reading => rfl
  | writing goal write => simp only [Stage.undated, write.undated]
  | releasing verdict version lease => simp only [Stage.undated, lease.undated]

theorem Run.Alike.undated {r r' : Run} (alike : r.Alike pairs r') : r.undated = r'.undated := by
  cases alike with
  | @mk c s s' stage stage' sighting arrived =>
      have seen : s.seen.map Entry.undated = s'.seen.map Entry.undated :=
        map_eq_of_rel sighting.seen fun _ _ same => same.undated
      simp only [Run.undated, Sighting.undated, seen, sighting.reported, arrived.undated]

theorem Member.Alike.undated {m m' : Member} (alike : m.Alike pairs m') :
    m.undated = m'.undated := by
  rw [alike.rest, Member.undated, alike.run.undated]
  rfl

end Undated

/-! ## The times that come in -/

/-- The times that a lease carries, if it is held. -/
def Lease.stamps (key : String) (l : Lease) : List Stamp :=
  if l.holder = "" then [] else [⟨key, l.holder, l.acquired⟩, ⟨key, l.holder, l.renewed⟩]

namespace Contest

/-- The times that come in with a move: what the wall clock shows as an attempt begins, and what
stands in the lease that somebody else writes. -/
def stamps (c : Contest) : Move → List Stamp
  | .act id wall =>
    match c.members.get? id with
    | some m =>
      if m.run.begins (m.view c.now wall) then
        [⟨m.run.candidate.resource, m.run.candidate.identity, wall⟩]
      else []
    | none => []
  | .foreign key w => w.lease.stamps key
  | _ => []

/-- The times that come in with moves in order, for as long as they are possible. -/
def stampsAlong (c : Contest) : List Move → List Stamp
  | [] => []
  | move :: moves =>
    c.stamps move ++
      match c.step move with
      | some next => next.stampsAlong moves
      | none => []

/-- Contests that two executions have come to side by side. -/
structure Alike (pairs : List (Stamp × Stamp)) (c c' : Contest) : Prop where
  now : c.now = c'.now
  store : MemoryStore.Alike pairs c.store c'.store
  members : ∀ id, Option.Rel (Member.Alike pairs) (c.members.get? id) (c'.members.get? id)
  log : c.log.map Fact.undated = c'.log.map Fact.undated

variable {pairs : List (Stamp × Stamp)} {c c' : Contest}

theorem Alike.agrees (alike : c.Alike pairs c') : c.Agrees c' where
  now := alike.now
  store := fun key => map_eq_of_rel (alike.store key) fun _ _ same => same.undated
  members := fun id => map_eq_of_rel (alike.members id) fun _ _ same => same.undated
  log := alike.log

theorem alike_empty : Contest.empty.Alike pairs .empty where
  now := rfl
  store := fun _ => .none
  members := fun _ => .none
  log := rfl

section Steps

variable {id : Nat} {m m' : Member}

theorem now_note (c : Contest) (facts : Log) : (c.note facts).now = c.now := rfl

theorem note_alike {facts facts' : Log} (alike : c.Alike pairs c')
    (same : facts.map Fact.undated = facts'.map Fact.undated) :
    (c.note facts).Alike pairs (c'.note facts') where
  now := alike.now
  store := alike.store
  members := alike.members
  log := by
    simp only [note, List.map_append, alike.log, same]

theorem put_alike (alike : c.Alike pairs c') (members : m.Alike pairs m') :
    (c.put id m).Alike pairs (c'.put id m') where
  now := alike.now
  store := alike.store
  members := by
    intro i
    simp only [put, Table.get?_put]
    split
    · exact .some members
    · exact alike.members i
  log := alike.log

theorem settle_alike {step step' : Run × List Effect} (alike : c.Alike pairs c')
    (members : m.Alike pairs m') (steps : StepAlike pairs step step') :
    (c.settle id m step).Alike pairs (c'.settle id m' step') := by
  obtain ⟨runs, effects⟩ := steps
  have rest : ({ m' with run := step'.1 } : Member) =
      { ({ m with run := step.1 } : Member) with run := step'.1 } := by
    rw [members.rest]
  have affected := affectAll_withRun id { m with run := step.1 } step'.1 step.2
  have after : (affectAll id { m with run := step.1 } step.2).1.run = step.1 :=
    affectAll_run id _ step.2
  simp only [settle, ← effects, rest, affected, arrival_alike runs, ← alike.now]
  refine note_alike (put_alike alike ⟨?_, rfl⟩) rfl
  rw [after]
  exact runs

theorem read_alike (oneToOne : OneToOne pairs) (alike : c.Alike pairs c')
    (members : m.Alike pairs m') : (c.read id m).Alike pairs (c'.read id m') := by
  have key : m'.run.candidate = m.run.candidate := members.run.candidate
  have found := alike.store m.run.candidate.resource
  have steps := Run.receiveRead_alike c.now oneToOne members.run found
  simp only [read, key, now_note, ← alike.now]
  refine settle_alike (note_alike alike ?_) members steps
  generalize c.store.get? m.run.candidate.resource = seen at found ⊢
  generalize c'.store.get? m.run.candidate.resource = seen' at found ⊢
  cases found with
  | none => rfl
  | some same => simp [Fact.undated, same.undated]

theorem write_alike {w w' : Write} (oneToOne : OneToOne pairs) (alike : c.Alike pairs c')
    (members : m.Alike pairs m') (writes : w.Alike pairs m.run.candidate.resource w') :
    (c.write id m w).Alike pairs (c'.write id m' w') := by
  have key : m'.run.candidate = m.run.candidate := members.run.candidate
  obtain ⟨answers, stores⟩ := MemoryStore.write_alike alike.store writes
  have steps := Run.receiveWrite_alike c.now oneToOne members.run answers
  simp only [write, key, ← alike.now]
  generalize c.store.write m.run.candidate.resource w = written at answers stores steps ⊢
  generalize c'.store.write m.run.candidate.resource w' = written' at answers stores steps ⊢
  obtain ⟨answer, store⟩ := written
  obtain ⟨answer', store'⟩ := written'
  have stored : Contest.Alike pairs ⟨c.now, store, c.members, c.log⟩
      ⟨c.now, store', c'.members, c'.log⟩ := ⟨rfl, stores, alike.members, alike.log⟩
  cases answers with
  | ok same =>
      refine settle_alike (note_alike stored ?_) members steps
      simp [Fact.undated, same.undated]
  | error err => exact settle_alike (note_alike stored rfl) members steps

theorem request_alike (alike : c.Alike pairs c') (members : m.Alike pairs m') :
    (c.request id m).Alike pairs (c'.request id m') := by
  obtain ⟨run, rest⟩ := members
  rw [rest]
  simp only [request]
  split
  · exact alike
  · exact note_alike (put_alike alike ⟨run, rfl⟩) rfl

end Steps

/-! ## One move in two executions -/

section Moves

variable {id : Nat}

theorem rel_bind {α β : Type} {R : α → α → Prop} {S : β → β → Prop} {found found' : Option α}
    {f f' : α → Option β} (both : Option.Rel R found found')
    (follow : ∀ a a', R a a' → Option.Rel S (f a) (f' a')) :
    Option.Rel S (found.bind f) (found'.bind f') := by
  cases both with
  | none => exact .none
  | some alike => exact follow _ _ alike

theorem contains_alike (alike : c.Alike pairs c') (id : Nat) :
    c'.log.contains (.started id) = c.log.contains (.started id) := by
  have undated : ∀ log : Log, log.contains (.started id) =
      (log.map Fact.undated).contains (.started id) := by
    intro log
    rw [Bool.eq_iff_iff, List.contains_iff_mem, List.contains_iff_mem, List.mem_map]
    constructor
    · exact fun member => ⟨_, member, rfl⟩
    · rintro ⟨fact, member, same⟩
      cases fact with
      | started i =>
          cases same
          exact member
      | _ => cases same
  rw [undated c'.log, undated c.log, alike.log]

theorem start_alike (alike : c.Alike pairs c') (candidate : Candidate) :
    Option.Rel (Alike pairs) (c.step (.start id candidate)) (c'.step (.start id candidate)) := by
  have fresh : Member.Alike pairs { run := .start candidate c.now }
      { run := .start candidate c.now } :=
    ⟨.mk candidate ⟨.none, fun _ => nofun, rfl⟩ (.same rfl), rfl⟩
  simp only [step, contains_alike alike, ← alike.now]
  split
  · exact .none
  · exact .some (note_alike (put_alike alike fresh) rfl)

theorem call_alike (oneToOne : OneToOne pairs) (alike : c.Alike pairs c') :
    Option.Rel (Alike pairs) (c.step (.call id)) (c'.step (.call id)) := by
  refine rel_bind (alike.members id) fun m m' members => ?_
  refine rel_bind (members.run.call) fun call call' calls => ?_
  cases calls with
  | get => exact .some (read_alike oneToOne alike members)
  | write writes => exact .some (write_alike oneToOne alike members writes)

theorem cancel_alike (alike : c.Alike pairs c') :
    Option.Rel (Alike pairs) (c.step (.cancel id)) (c'.step (.cancel id)) :=
  rel_bind (alike.members id) fun _ _ members => .some (request_alike alike members)

theorem trigger_alike (alike : c.Alike pairs c') :
    Option.Rel (Alike pairs) (c.step (.trigger id)) (c'.step (.trigger id)) := by
  refine rel_bind (alike.members id) fun m m' members => .some (put_alike alike ?_)
  exact ⟨members.run, by rw [members.rest]⟩

theorem listen_alike (alike : c.Alike pairs c') :
    Option.Rel (Alike pairs) (c.step (.listen id)) (c'.step (.listen id)) := by
  refine rel_bind (alike.members id) fun m m' members => ?_
  obtain ⟨run, rest⟩ := members
  rw [rest]
  split
  · exact .some (request_alike alike ⟨run, rfl⟩)
  · exact .none

theorem finish_alike (alike : c.Alike pairs c') (result : WorkResult) :
    Option.Rel (Alike pairs) (c.step (.finish id result)) (c'.step (.finish id result)) := by
  refine rel_bind (alike.members id) fun m m' members => ?_
  obtain ⟨run, rest⟩ := members
  rw [rest]
  split
  · exact .some (note_alike (put_alike alike ⟨run, rfl⟩) rfl)
  · exact .none

theorem vanish_alike (alike : c.Alike pairs c') :
    Option.Rel (Alike pairs) (c.step (.vanish id)) (c'.step (.vanish id)) := by
  refine rel_bind (alike.members id) fun m m' members => .some (note_alike ?_ rfl)
  refine { alike with members := fun i => ?_ }
  simp only [Table.get?_erase]
  split
  · exact .none
  · exact alike.members i

theorem pass_alike (alike : c.Alike pairs c') (time : Duration) :
    Option.Rel (Alike pairs) (c.step (.pass time)) (c'.step (.pass time)) :=
  .some { alike with now := congrArg (· + time.nanos) alike.now }

theorem foreign_alike {key : String} {w w' : Write} (alike : c.Alike pairs c')
    (writes : w.Alike pairs key w') :
    Option.Rel (Alike pairs) (c.step (.foreign key w)) (c'.step (.foreign key w')) := by
  obtain ⟨answers, stores⟩ := MemoryStore.write_alike alike.store writes
  simp only [step, ← alike.now]
  generalize c.store.write key w = written at answers stores ⊢
  generalize c'.store.write key w' = written' at answers stores ⊢
  obtain ⟨answer, store⟩ := written
  obtain ⟨answer', store'⟩ := written'
  have stored : Contest.Alike pairs ⟨c.now, store, c.members, c.log⟩
      ⟨c.now, store', c'.members, c'.log⟩ := ⟨rfl, stores, alike.members, alike.log⟩
  cases answers with
  | ok same => exact .some (note_alike stored (by simp [Fact.undated, same.undated]))
  | error err => exact .some (note_alike stored rfl)

theorem stamps_act {m : Member} {wall : Timestamp} (present : c.members.get? id = some m) :
    c.stamps (.act id wall) =
      if m.run.begins (m.view c.now wall) then
        [⟨m.run.candidate.resource, m.run.candidate.identity, wall⟩]
      else [] := by
  simp only [stamps, present]

theorem step_act {m : Member} {wall : Timestamp} (present : c.members.get? id = some m) :
    c.step (.act id wall) =
      (m.run.act (m.view c.now wall)).bind fun step => some (c.settle id m step) := by
  simp only [step, present]
  rfl

/-- A step without the store, and as many times that come in with it. -/
theorem act_alike {wall wall' : Timestamp} (alike : c.Alike pairs c')
    (clocks : ∀ p ∈ (c.stamps (.act id wall)).zip (c'.stamps (.act id wall')), p ∈ pairs) :
    Option.Rel (Alike pairs) (c.step (.act id wall)) (c'.step (.act id wall')) ∧
      (c.stamps (.act id wall)).length = (c'.stamps (.act id wall')).length := by
  have both := alike.members id
  cases present : c.members.get? id with
  | none =>
      rw [present] at both
      cases present' : c'.members.get? id with
      | none => simp [step, stamps, present, present']
      | some m' => rw [present'] at both; cases both
  | some m =>
      rw [present] at both
      cases present' : c'.members.get? id with
      | none => rw [present'] at both; cases both
      | some m' =>
          rw [present'] at both
          have members : m.Alike pairs m' := by
            cases both
            assumption
          have key : m'.run.candidate = m.run.candidate := members.run.candidate
          have view : m'.view c'.now wall' = (m.view c.now wall).under wall' := by
            rw [members.rest, ← alike.now]
            rfl
          rw [stamps_act present, stamps_act present', view, key] at clocks
          rw [stamps_act present, stamps_act present', view]
          have steps : Option.Rel (StepAlike pairs) (m.run.act (m.view c.now wall))
              (m'.run.act ((m.view c.now wall).under wall')) := by
            refine Run.act_alike members.run fun begins begins' => clocks _ ?_
            rw [if_pos begins, if_pos begins']
            exact List.mem_singleton_self _
          refine ⟨?_, ?_⟩
          · rw [step_act present, step_act present', view]
            exact rel_bind steps fun _ _ same => .some (settle_alike alike members same)
          · rw [Run.begins_alike steps]
            split <;> rfl

theorem length_stamps {key : String} {l l' : Lease} (same : l.undated = l'.undated) :
    (l.stamps key).length = (l'.stamps key).length := by
  have holder : l.undated.holder = l'.undated.holder := congrArg Lease.holder same
  simp only [Lease.undated] at holder
  simp only [Lease.stamps, holder]
  split <;> rfl

theorem lease_alike {key : String} {l l' : Lease} (same : l.undated = l'.undated)
    (clocks : ∀ p ∈ (l.stamps key).zip (l'.stamps key), p ∈ pairs) : l.Alike pairs key l' := by
  obtain ⟨holder, duration, acquired, renewed, transitions⟩ := l
  obtain ⟨holder', duration', acquired', renewed', transitions'⟩ := l'
  simp only [Lease.undated, Lease.mk.injEq, true_and] at same
  obtain ⟨rfl, rfl, rfl⟩ := same
  by_cases held : holder = ""
  · exact ⟨rfl, rfl, rfl, fun named => absurd held named, fun named => absurd held named⟩
  · simp only [Lease.stamps, if_neg held, List.zip_cons_cons, List.zip_nil_left, List.mem_cons,
      List.not_mem_nil, or_false, forall_eq_or_imp, forall_eq] at clocks
    exact ⟨rfl, rfl, rfl, fun _ => clocks.1, fun _ => clocks.2⟩

theorem writes_alike {key : String} {w w' : Write} (same : w.undated = w'.undated)
    (clocks : ∀ p ∈ (w.lease.stamps key).zip (w'.lease.stamps key), p ∈ pairs) :
    w.Alike pairs key w' ∧ (w.lease.stamps key).length = (w'.lease.stamps key).length := by
  cases w with
  | create l =>
      cases w' with
      | create l' =>
          have leases := Write.create.inj same
          exact ⟨.create (lease_alike leases clocks), length_stamps leases⟩
      | update => cases same
  | update version l =>
      cases w' with
      | create => cases same
      | update version' l' =>
          obtain ⟨versions, leases⟩ := Write.update.inj same
          subst versions
          exact ⟨.update version (lease_alike leases clocks), length_stamps leases⟩

/-- Moves that are the same without the wall clock differ in its reading, or in the times that
somebody else writes, if they differ at all. -/
theorem eq_of_undated {move move' : Move} (same : move.undated = move'.undated) :
    (∃ id wall wall', move = .act id wall ∧ move' = .act id wall') ∨
      (∃ key w w', move = .foreign key w ∧ move' = .foreign key w' ∧ w.undated = w'.undated) ∨
      move = move' := by
  cases move with
  | act id wall =>
      cases move' with
      | act id' wall' =>
          cases same
          exact .inl ⟨id, wall, wall', rfl, rfl⟩
      | _ => cases same
  | foreign key w =>
      cases move' with
      | foreign key' w' =>
          obtain ⟨rfl, writes⟩ := Move.foreign.inj same
          exact .inr (.inl ⟨key, w, w', rfl, rfl, writes⟩)
      | _ => cases same
  | _ =>
      cases move' with
      | act | foreign => cases same
      | _ => exact .inr (.inr same)

end Moves

/-- One move in both executions leads to contests that are alike, or to none in both. -/
theorem step_alike {move move' : Move} (oneToOne : OneToOne pairs) (alike : c.Alike pairs c')
    (same : move.undated = move'.undated)
    (clocks : ∀ p ∈ (c.stamps move).zip (c'.stamps move'), p ∈ pairs) :
    Option.Rel (Alike pairs) (c.step move) (c'.step move') ∧
      (c.stamps move).length = (c'.stamps move').length := by
  rcases eq_of_undated same with
    ⟨id, wall, wall', rfl, rfl⟩ | ⟨key, w, w', rfl, rfl, writes⟩ | rfl
  · exact act_alike alike clocks
  · obtain ⟨both, counts⟩ := writes_alike writes clocks
    exact ⟨foreign_alike alike both, counts⟩
  · cases move with
    | start id candidate => exact ⟨start_alike alike candidate, rfl⟩
    | act id wall => exact act_alike alike clocks
    | call id => exact ⟨call_alike oneToOne alike, rfl⟩
    | cancel id => exact ⟨cancel_alike alike, rfl⟩
    | trigger id => exact ⟨trigger_alike alike, rfl⟩
    | listen id => exact ⟨listen_alike alike, rfl⟩
    | finish id result => exact ⟨finish_alike alike result, rfl⟩
    | vanish id => exact ⟨vanish_alike alike, rfl⟩
    | foreign key w =>
        obtain ⟨both, counts⟩ := writes_alike rfl clocks
        exact ⟨foreign_alike alike both, counts⟩
    | pass time => exact ⟨pass_alike alike time, rfl⟩

/-! ## Two executions of the same moves -/

theorem mem_zip_append {α β : Type} {xs xs' : List α} {ys ys' : List β} {p : α × β}
    (member : p ∈ xs.zip ys) : p ∈ (xs ++ xs').zip (ys ++ ys') := by
  induction xs generalizing ys with
  | nil => cases member
  | cons x xs ih =>
      cases ys with
      | nil => cases member
      | cons y ys =>
          rcases List.mem_cons.mp member with rfl | member
          · exact List.mem_cons_self
          · exact List.mem_cons_of_mem _ (ih member)

theorem play_alike {xs ys : List Move} (oneToOne : OneToOne pairs) (alike : c.Alike pairs c')
    (same : xs.map Move.undated = ys.map Move.undated)
    (clocks : ∀ p ∈ (c.stampsAlong xs).zip (c'.stampsAlong ys), p ∈ pairs) :
    Option.Rel (Alike pairs) (c.play xs) (c'.play ys) := by
  induction xs generalizing ys c c' with
  | nil =>
      cases ys with
      | nil => exact .some alike
      | cons => cases same
  | cons move xs ih =>
      cases ys with
      | nil => cases same
      | cons move' ys =>
          obtain ⟨first, rest⟩ := List.cons.inj same
          simp only [stampsAlong] at clocks
          obtain ⟨steps, counts⟩ := step_alike oneToOne alike first
            fun p member => clocks p (mem_zip_append member)
          rw [List.zip_append counts] at clocks
          simp only [play]
          generalize c.step move = next at steps clocks ⊢
          generalize c'.step move' = next' at steps clocks ⊢
          cases steps with
          | none => exact .none
          | some both => exact ih both rest fun p member => clocks p (List.mem_append_right _ member)

/-- Executions of the same moves under two clocks agree on all but the times, if the times that one
identity writes under one key are equal in the one exactly when they are in the other. -/
theorem play_agrees {xs ys : List Move} (same : xs.map Move.undated = ys.map Move.undated)
    (oneToOne : OneToOne ((empty.stampsAlong xs).zip (empty.stampsAlong ys))) :
    Option.Rel Agrees (empty.play xs) (empty.play ys) := by
  have alike := play_alike oneToOne alike_empty same fun p member => member
  generalize empty.play xs = c at alike ⊢
  generalize empty.play ys = c' at alike ⊢
  cases alike with
  | none => exact .none
  | some both => exact .some both.agrees

/-- Times that do not come twice in either execution go together. -/
theorem oneToOne_of_nodup {xs ys : List Stamp} (first : xs.Nodup) (second : ys.Nodup) :
    OneToOne (xs.zip ys) := by
  intro p member q member'
  obtain ⟨i, atFirst⟩ := List.mem_iff_getElem?.mp member
  obtain ⟨j, atSecond⟩ := List.mem_iff_getElem?.mp member'
  obtain ⟨firstP, secondP⟩ := List.getElem?_zip_eq_some.mp atFirst
  obtain ⟨firstQ, secondQ⟩ := List.getElem?_zip_eq_some.mp atSecond
  obtain ⟨insideP, -⟩ := List.getElem?_eq_some_iff.mp firstP
  obtain ⟨insideP', -⟩ := List.getElem?_eq_some_iff.mp secondP
  constructor
  · intro same
    have index := (List.getElem?_inj insideP first).mp (firstP.trans (same ▸ firstQ.symm))
    subst index
    exact Option.some.inj (secondP.symm.trans secondQ)
  · intro same
    have index := (List.getElem?_inj insideP' second).mp (secondP.trans (same ▸ secondQ.symm))
    subst index
    exact Option.some.inj (firstP.symm.trans firstQ)

/-- The first run renews its lease of five seconds three times, two seconds apart, and the second
looks after each time. The readings are those of the first run's wall clock. -/
def threeRenewals (start first second third : Timestamp) : List Move :=
  [.start 1 ⟨"a", "test/lease", .ofSeconds 5, .ofSeconds 2⟩,
    .start 2 ⟨"b", "test/lease", .ofSeconds 5, .ofSeconds 2⟩,
    .act 1 start, .act 2 (.ofUnix 0 0), .act 1 start, .call 1, .call 1, .act 1 start, .act 1 start,
    .act 2 (.ofUnix 0 0), .call 2,
    .pass (.ofSeconds 2), .act 1 first, .call 1, .call 1, .act 2 (.ofUnix 2 0), .call 2,
    .pass (.ofSeconds 2), .act 1 second, .call 1, .call 1, .act 2 (.ofUnix 4 0), .call 2,
    .pass (.ofSeconds 2), .act 1 third, .call 1, .call 1, .act 2 (.ofUnix 6 0), .call 2]

def clockRunning : List Move :=
  threeRenewals (.ofUnix 0 0) (.ofUnix 2 0) (.ofUnix 4 0) (.ofUnix 6 0)

def clockBackwards : List Move :=
  threeRenewals (.ofUnix 9 0) (.ofUnix 7 0) (.ofUnix 5 0) (.ofUnix 3 0)

def clockStopped : List Move :=
  threeRenewals (.ofUnix 0 0) (.ofUnix 0 0) (.ofUnix 0 0) (.ofUnix 0 0)

theorem play_agrees_backwards :
    ∃ c c', empty.play clockRunning = some c ∧ empty.play clockBackwards = some c' ∧
      c.Agrees c' := by
  have oneToOne : OneToOne
      ((empty.stampsAlong clockRunning).zip (empty.stampsAlong clockBackwards)) :=
    oneToOne_of_nodup (by decide +kernel) (by decide +kernel)
  have agrees : Option.Rel Agrees (empty.play clockRunning) (empty.play clockBackwards) :=
    play_agrees rfl oneToOne
  have possible : (empty.play clockRunning).isSome = true := by decide +kernel
  generalize empty.play clockRunning = first at agrees possible ⊢
  generalize empty.play clockBackwards = second at agrees ⊢
  cases agrees with
  | none => cases possible
  | some both => exact ⟨_, _, rfl, rfl, both⟩

/-- While the clock of the first run stands still, the second does not notice its renewals, and
takes the lease away from it. -/
theorem clockStopped_not_agrees :
    ∃ c next c', empty.play clockStopped = some c ∧ c.step (.call 2) = some next ∧
      (next.store.get? "test/lease").map (·.lease.holder) = some "b" ∧
      empty.play clockRunning = some c' ∧ c'.step (.call 2) = none ∧
      clockStopped.map Move.undated = clockRunning.map Move.undated ∧ ¬ c.Agrees c' := by
  have played : ((empty.play clockStopped).bind fun c => (c.step (.call 2)).bind fun next =>
      (empty.play clockRunning).map fun c' =>
        ((next.store.get? "test/lease").map (·.lease.holder), (c'.step (.call 2)).isSome,
          decide ((c.members.get? 2).map Member.undated =
            (c'.members.get? 2).map Member.undated))) = some (some "b", false, false) := by
    decide +kernel
  obtain ⟨c, stopped, rest⟩ := Option.bind_eq_some_iff.mp played
  obtain ⟨next, last, rest⟩ := Option.bind_eq_some_iff.mp rest
  obtain ⟨c', running, found⟩ := Option.map_eq_some_iff.mp rest
  simp only [Prod.mk.injEq, decide_eq_false_iff_not, Option.isSome_eq_false_iff,
    Option.isNone_iff_eq_none] at found
  obtain ⟨holder, waits, differ⟩ := found
  exact ⟨c, next, c', stopped, last, holder, running, waits, rfl,
    fun agrees => differ (agrees.members 2)⟩

end Contest

end LeaderLease
