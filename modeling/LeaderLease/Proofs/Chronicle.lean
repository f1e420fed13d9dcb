import LeaderLease.Proofs.Career

/-!
# The chronicle of a key

`Log.records` lists who stored what under a key, and when. Its versions count from one, its last
entry is the one in the store, and every entry that a member has seen is in it. What a member is
about to write follows from the entry that it saw last. `chronicle_of_play` proves this after any
moves in any order.
-/

set_option autoImplicit false

namespace LeaderLease

open Contest (arrival IsNotice)

/-- An entry that was stored under a key. -/
structure Record where
  author : Option Nat
  time : Instant
  entry : Entry
deriving DecidableEq, Repr

def Fact.record? (key : String) : Fact → Option Record
  | .stored author time k e => if k = key then some ⟨author, time, e⟩ else none
  | _ => none

/-- What was stored under a key, the latest last. -/
def Log.records (log : Log) (key : String) : List Record := log.filterMap (Fact.record? key)

namespace Log

theorem records_append (log more : Log) (key : String) :
    records (log ++ more) key = log.records key ++ more.records key := List.filterMap_append

theorem fact_of_author {log : Log} {key : String} {x : Record} {id : Nat}
    (member : x ∈ log.records key) (author : x.author = some id) :
    ∃ fact ∈ log, fact.member? = some id := by
  obtain ⟨fact, inLog, shown⟩ := List.mem_filterMap.mp member
  cases fact with
  | stored who time k e =>
      simp only [Fact.record?] at shown
      split at shown
      · cases shown
        exact ⟨_, inLog, author⟩
      · cases shown
  | _ => cases shown

def Stores (facts : Log) : Prop := ∃ author time key e, Fact.stored author time key e ∈ facts

theorem records_of_not_stores {facts : Log} (silent : ¬ facts.Stores) (key : String) :
    facts.records key = [] := by
  refine List.filterMap_eq_nil_iff.mpr fun fact member => ?_
  cases fact with
  | stored author time k e => exact absurd ⟨author, time, k, e, member⟩ silent
  | _ => rfl

theorem records_append_of_not_stores (log : Log) {facts : Log} (silent : ¬ facts.Stores)
    (key : String) : records (log ++ facts) key = log.records key := by
  rw [records_append, records_of_not_stores silent, List.append_nil]

theorem not_stores_nil : ¬ Stores [] := by
  rintro ⟨author, time, key, e, member⟩
  cases member

theorem not_stores_singleton {fact : Fact}
    (other : ∀ author time key e, Fact.stored author time key e ≠ fact) : ¬ Stores [fact] := by
  rintro ⟨author, time, key, e, member⟩
  exact other author time key e (List.mem_singleton.mp member)

theorem not_stores_append {log more : Log} (first : ¬ log.Stores) (second : ¬ more.Stores) :
    ¬ Stores (log ++ more) := by
  rintro ⟨author, time, key, e, member⟩
  rcases List.mem_append.mp member with member | member
  · exact first ⟨author, time, key, e, member⟩
  · exact second ⟨author, time, key, e, member⟩

theorem not_stores_facts (id : Nat) (now : Instant) (m : Member) (step : Run × List Effect) :
    ¬ Stores (m.facts id now step) := by
  refine not_stores_append ?_ ?_
  · rintro ⟨author, time, key, e, member⟩
    exact Contest.isNotice_affectAll id _ _ _ member
  · rintro ⟨author, time, key, e, member⟩
    unfold arrival at member
    split at member <;> simp only [List.mem_singleton, List.not_mem_nil, reduceCtorEq] at member

theorem not_stores_readFacts (id : Nat) (now : Instant) (answer : ReadAnswer) :
    ¬ Stores (readFacts id now answer) := by
  rintro ⟨author, time, key, e, member⟩
  unfold readFacts at member
  split at member <;> simp only [List.mem_singleton, List.not_mem_nil, reduceCtorEq] at member

theorem not_stores_requestFacts (id : Nat) (m : Member) : ¬ Stores (m.requestFacts id) := by
  rintro ⟨author, time, key, e, member⟩
  unfold Member.requestFacts at member
  split at member <;> simp at member

end Log

/-! ## Versions count what was stored -/

/-- The records have the versions from one on, in order. -/
def Numbered (records : List Record) : Prop :=
  ∀ i x, records[i]? = some x → x.entry.version = i + 1

namespace Numbered

variable {records : List Record} {x y : Record}

theorem unique (numbered : Numbered records) (first : x ∈ records) (second : y ∈ records)
    (same : x.entry.version = y.entry.version) : x = y := by
  obtain ⟨i, atFirst⟩ := List.mem_iff_getElem?.mp first
  obtain ⟨j, atSecond⟩ := List.mem_iff_getElem?.mp second
  have index : i = j := by
    have firstVersion := numbered i x atFirst
    have secondVersion := numbered j y atSecond
    omega
  rw [index] at atFirst
  exact Option.some.inj (atFirst.symm.trans atSecond)

theorem version_le_length (numbered : Numbered records) (member : x ∈ records) :
    x.entry.version ≤ records.length := by
  obtain ⟨i, atIndex⟩ := List.mem_iff_getElem?.mp member
  obtain ⟨inside, -⟩ := List.getElem?_eq_some_iff.mp atIndex
  have version := numbered i x atIndex
  omega

theorem version_pos (numbered : Numbered records) (member : x ∈ records) :
    0 < x.entry.version := by
  obtain ⟨i, atIndex⟩ := List.mem_iff_getElem?.mp member
  have version := numbered i x atIndex
  omega

theorem last_version (numbered : Numbered records) (last : records.getLast? = some x) :
    x.entry.version = records.length := by
  rw [List.getLast?_eq_getElem?] at last
  have version := numbered _ x last
  have some := List.length_pos_of_mem (List.mem_of_getElem? last)
  omega

theorem exists_version (numbered : Numbered records) (member : x ∈ records) (version : Nat)
    (positive : 0 < version) (le : version ≤ x.entry.version) :
    ∃ y ∈ records, y.entry.version = version := by
  have inside : version - 1 < records.length := by
    have bound := numbered.version_le_length member
    omega
  refine ⟨records[version - 1], List.getElem_mem inside, ?_⟩
  rw [numbered (version - 1) _ (List.getElem?_eq_getElem inside)]
  omega

theorem concat (numbered : Numbered records) (next : x.entry.version = records.length + 1) :
    Numbered (records ++ [x]) := by
  intro i y atIndex
  rcases Nat.lt_trichotomy i records.length with inside | same | outside
  · rw [List.getElem?_append_left inside] at atIndex
    exact numbered i y atIndex
  · rw [same, List.getElem?_concat_length] at atIndex
    rw [← Option.some.inj atIndex, same]
    exact next
  · rw [List.getElem?_eq_none] at atIndex
    · cases atIndex
    · rw [List.length_append, List.length_singleton]
      exact outside

end Numbered

/-- The store is what the log says was stored. -/
structure Keeps (store : MemoryStore) (log : Log) (now : Instant) : Prop where
  numbered : ∀ key, Numbered (log.records key)
  current : ∀ key, store.get? key = (log.records key).getLast?.map (·.entry)
  past : ∀ key, ∀ x ∈ log.records key, x.time ≤ now

namespace Keeps

variable {store store' : MemoryStore} {log : Log} {now : Instant} {key : String}

theorem quiet {facts : Log} (keeps : Keeps store log now) (silent : ¬ facts.Stores) :
    Keeps store (log ++ facts) now := by
  have same := log.records_append_of_not_stores silent
  refine ⟨fun key => ?_, fun key => ?_, fun key => ?_⟩
  · rw [same]
    exact keeps.numbered key
  · rw [same]
    exact keeps.current key
  · rw [same]
    exact keeps.past key

theorem later {after : Instant} (keeps : Keeps store log now) (passed : now ≤ after) :
    Keeps store log after :=
  { keeps with past := fun key x member => Nat.le_trans (keeps.past key x member) passed }

theorem seen {e : Entry} (keeps : Keeps store log now) (found : store.get? key = some e) :
    ∃ x, (log.records key).getLast? = some x ∧ x.entry = e := by
  rw [keeps.current] at found
  exact Option.map_eq_some_iff.mp found

theorem next_version {w : Write} {e : Entry} (keeps : Keeps store log now)
    (run : store.write key w = (.ok e, store')) :
    e.version = (log.records key).length + 1 := by
  obtain ⟨-, -, ⟨absent, first, -⟩ | ⟨current, held, next, -⟩⟩ := MemoryStore.write_ok run
  · rw [keeps.current, Option.map_eq_none_iff, List.getLast?_eq_none_iff] at absent
    rw [absent, first]
    rfl
  · obtain ⟨x, last, same⟩ := keeps.seen held
    rw [next, ← same, (keeps.numbered key).last_version last]

theorem replaces {w : Write} {e : Entry} {x : Record} (keeps : Keeps store log now)
    (run : store.write key w = (.ok e, store')) (member : x ∈ log.records key)
    (last : x.entry.version = (log.records key).length) :
    w = .update x.entry.version w.lease := by
  obtain ⟨-, -, ⟨absent, -, -⟩ | ⟨current, held, -, same⟩⟩ := MemoryStore.write_ok run
  · rw [keeps.current, Option.map_eq_none_iff, List.getLast?_eq_none_iff] at absent
    rw [absent] at member
    cases member
  · obtain ⟨y, atEnd, same'⟩ := keeps.seen held
    have version := (keeps.numbered key).last_version atEnd
    have unique := (keeps.numbered key).unique member (List.mem_of_getLast? atEnd)
      (last.trans version.symm)
    rw [unique, same']
    exact same

/-- A write over the current entry fails only at the end of the versions. -/
theorem exhausted_of_current {x : Record} {l : Lease} {err : StoreError}
    (keeps : Keeps store log now) (last : (log.records key).getLast? = some x)
    (run : store.write key (.update x.entry.version l) = (.error err, store')) :
    err = .exhausted := by
  have current : store.get? key = some x.entry := by
    rw [keeps.current, last]
    rfl
  simp only [MemoryStore.write, MemoryStore.update, current, if_true] at run
  split at run
  · cases run
  · cases run
    rfl

theorem records_stored (author : Option Nat) (e : Entry) (key' : String) :
    Log.records (log ++ [.stored author now key e]) key' =
      log.records key' ++ if key = key' then [⟨author, now, e⟩] else [] := by
  rw [Log.records_append]
  congr 1
  by_cases same : key = key' <;> simp [Log.records, Fact.record?, same]

theorem stored {w : Write} {e : Entry} (author : Option Nat) (keeps : Keeps store log now)
    (run : store.write key w = (.ok e, store')) :
    Keeps store' (log ++ [.stored author now key e]) now := by
  obtain ⟨put, -⟩ := MemoryStore.write_ok run
  subst put
  refine ⟨fun key' => ?_, fun key' => ?_, fun key' x member => ?_⟩
  · rw [records_stored]
    by_cases same : key = key'
    · subst same
      rw [if_pos rfl]
      exact (keeps.numbered key).concat (keeps.next_version run)
    · rw [if_neg same, List.append_nil]
      exact keeps.numbered key'
  · rw [records_stored, Table.get?_put]
    by_cases same : key = key'
    · rw [if_pos same, if_pos same, List.getLast?_concat]
      rfl
    · rw [if_neg same, if_neg same, List.append_nil]
      exact keeps.current key'
  · rw [records_stored] at member
    rcases List.mem_append.mp member with member | member
    · exact keeps.past key' x member
    · by_cases same : key = key'
      · rw [if_pos same] at member
        cases List.mem_singleton.mp member
        exact Nat.le_refl now
      · rw [if_neg same] at member
        cases member

theorem not_stores_observed {facts : Log} (id : Nat) (now : Instant) (e : Entry)
    (silent : ¬ facts.Stores) : ¬ Log.Stores (.observed id now e :: facts) := by
  have seen : ¬ Log.Stores [.observed id now e] := Log.not_stores_singleton (by simp)
  exact Log.not_stores_append seen silent

theorem records_written {facts : Log} (id : Nat) (e : Entry) (silent : ¬ facts.Stores)
    (key' : String) :
    Log.records (log ++ (writeFacts id now key (.ok e) ++ facts)) key' =
      log.records key' ++ if key = key' then [⟨some id, now, e⟩] else [] := by
  have split : log ++ (writeFacts id now key (.ok e) ++ facts) =
      log ++ [.stored (some id) now key e] ++ (.observed id now e :: facts) := by
    simp [writeFacts]
  rw [split, Log.records_append_of_not_stores _ (not_stores_observed id now e silent),
    records_stored]

theorem written {w : Write} {e : Entry} {facts : Log} (id : Nat) (keeps : Keeps store log now)
    (run : store.write key w = (.ok e, store')) (silent : ¬ facts.Stores) :
    Keeps store' (log ++ (writeFacts id now key (.ok e) ++ facts)) now := by
  have after := (keeps.stored (some id) run).quiet (not_stores_observed id now e silent)
  rw [List.append_assoc] at after
  exact after

end Keeps

/-! ## What a run is about to write -/

namespace Run

/-- What a run is about to write follows from the entry that it saw last. -/
def Plans (r : Run) : Prop :=
  match r.stage with
  | .writing _ (.create l) => ∃ wall, l = r.candidate.firstLease wall
  | .writing _ (.update version l) => ∃ e wall, r.sighting.seen = some e ∧ e.version = version ∧
      (e.lease.isHeldBy r.candidate.identity = true ∧ l = r.candidate.renewedLease wall e.lease ∨
        e.lease.isHeldBy r.candidate.identity = false ∧
          ∃ count, l = r.candidate.takenLease wall count)
  | .releasing _ version l => ∃ e wall, r.sighting.seen = some e ∧ e.version = version ∧
      e.lease.isHeldBy r.candidate.identity = true ∧
      l = Candidate.releasedLease wall e.lease.transitions
  | _ => True

/-- A run that waits for a write attempts on the lease, or hands it back. -/
theorem stage_of_write {r : Run} {w : Write} (called : r.call? = some (.write w)) :
    (∃ goal, r.stage = .writing goal w) ∨
      ∃ verdict version lease, r.stage = .releasing verdict version lease ∧
        w = .update version lease := by
  cases stage : r.stage with
  | writing goal w' =>
      simp only [call?, stage, Option.some.injEq, Call.write.injEq] at called
      exact Or.inl ⟨goal, by rw [called]⟩
  | releasing verdict version lease =>
      simp only [call?, stage, Option.some.injEq, Call.write.injEq] at called
      exact Or.inr ⟨verdict, version, lease, rfl, called.symm⟩
  | _ => simp [call?, stage] at called

theorem plans_of_create {r : Run} {goal : Goal} {l : Lease} (plans : r.Plans)
    (stage : r.stage = .writing goal (.create l)) : ∃ wall, l = r.candidate.firstLease wall := by
  unfold Plans at plans
  rwa [stage] at plans

theorem plans_of_update {r : Run} {goal : Goal} {version : Nat} {l : Lease} (plans : r.Plans)
    (stage : r.stage = .writing goal (.update version l)) :
    ∃ e wall, r.sighting.seen = some e ∧ e.version = version ∧
      (e.lease.isHeldBy r.candidate.identity = true ∧ l = r.candidate.renewedLease wall e.lease ∨
        e.lease.isHeldBy r.candidate.identity = false ∧
          ∃ count, l = r.candidate.takenLease wall count) := by
  unfold Plans at plans
  rwa [stage] at plans

theorem plans_of_releasing {r : Run} {verdict : Verdict} {version : Nat} {l : Lease}
    (plans : r.Plans) (stage : r.stage = .releasing verdict version l) :
    ∃ e wall, r.sighting.seen = some e ∧ e.version = version ∧
      e.lease.isHeldBy r.candidate.identity = true ∧
      l = Candidate.releasedLease wall e.lease.transitions := by
  unfold Plans at plans
  rwa [stage] at plans

theorem holder_of_plans {r : Run} {goal : Goal} {w : Write} (plans : r.Plans)
    (stage : r.stage = .writing goal w) : w.lease.holder = r.candidate.identity := by
  cases w with
  | create l =>
      obtain ⟨wall, rfl⟩ := plans_of_create plans stage
      rfl
  | update version l =>
      obtain ⟨e, wall, -, -, ⟨-, rfl⟩ | ⟨-, count, rfl⟩⟩ := plans_of_update plans stage <;> rfl

theorem duration_of_plans {r : Run} {goal : Goal} {w : Write} (plans : r.Plans)
    (stage : r.stage = .writing goal w) : w.lease.duration = r.candidate.ttl := by
  cases w with
  | create l =>
      obtain ⟨wall, rfl⟩ := plans_of_create plans stage
      rfl
  | update version l =>
      obtain ⟨e, wall, -, -, ⟨-, rfl⟩ | ⟨-, count, rfl⟩⟩ := plans_of_update plans stage <;> rfl

/-- A run has seen last what was stored, and plans accordingly. -/
structure Recalls (r : Run) (records : List Record) : Prop where
  seen : ∀ e, r.sighting.seen = some e → ∃ x ∈ records, x.entry = e
  plans : r.Plans

theorem Recalls.append {r : Run} {records : List Record} (recalls : r.Recalls records)
    (more : List Record) : r.Recalls (records ++ more) where
  seen := by
    intro e seen
    obtain ⟨x, member, same⟩ := recalls.seen e seen
    exact ⟨x, List.mem_append_left _ member, same⟩
  plans := recalls.plans

/-- What a run has seen is the record of its version. -/
theorem Recalls.entry_of_version {r : Run} {records : List Record} {e : Entry} {x : Record}
    (recalls : r.Recalls records) (numbered : Numbered records)
    (seen : r.sighting.seen = some e) (member : x ∈ records)
    (version : x.entry.version = e.version) : x.entry = e := by
  obtain ⟨y, seenMember, same⟩ := recalls.seen e seen
  rw [← same]
  exact congrArg Record.entry (numbered.unique member seenMember (by rw [version, same]))

theorem plans_handBack (r : Run) (wall : Timestamp) (verdict : Verdict) :
    (r.handBack wall verdict).Plans := by
  rcases handBack_cases r wall verdict with same | ⟨e, seen, mine, same⟩ <;> rw [same]
  · trivial
  · exact ⟨e, wall, seen, rfl, mine, rfl⟩

theorem plans_failed (r : Run) (now : Instant) (goal : Goal) : (r.failed now goal).Plans := by
  rcases failed_cases r now goal with same | ⟨-, same | same⟩ <;> rw [same] <;> trivial

theorem recalls_act {r next : Run} {v : View} {effects : List Effect} {records : List Record}
    (acts : r.Acts v next effects) (recalls : r.Recalls records) : next.Recalls records where
  seen := by
    rw [acts.sighting]
    exact recalls.seen
  plans := by
    cases acts with
    | finish stage | conclude stage => exact plans_handBack r _ _
    | _ => trivial

theorem recalls_read {r next : Run} {now : Instant} {goal : Goal} {wall : Timestamp}
    {found : Option Entry} {effects : List Effect} {records : List Record}
    (reads : r.Reads now goal wall (.ok found) next effects) (recalls : r.Recalls records)
    (stored : ∀ e, found = some e → ∃ x ∈ records, x.entry = e) : next.Recalls records := by
  have sees : ∀ (e : Entry) {e' : Entry}, found = some e →
      (r.sighting.observe now e).seen = some e' → ∃ x ∈ records, x.entry = e' := by
    intro e e' found seen
    cases Option.some.inj seen
    exact stored e found
  cases reads with
  | absent => exact ⟨recalls.seen, ⟨wall, rfl⟩⟩
  | held e =>
      refine ⟨fun e' seen => sees e rfl ?_, plans_failed _ _ _⟩
      rw [failed_sighting] at seen
      exact seen
  | own e mine => exact ⟨fun e' seen => sees e rfl seen, ⟨e, wall, rfl, rfl, Or.inl ⟨mine, rfl⟩⟩⟩
  | @free e count notMine =>
      exact ⟨fun e' seen => sees e rfl seen, ⟨e, wall, rfl, rfl, Or.inr ⟨notMine, count, rfl⟩⟩⟩
  | overflow e => exact ⟨fun e' seen => sees e rfl seen, trivial⟩

theorem recalls_write {r next : Run} {now : Instant} {answer : WriteAnswer}
    {effects : List Effect} {records : List Record} (writes : r.Writes now answer next effects)
    (recalls : r.Recalls records)
    (stored : ∀ e, answer = .ok e → ∃ x ∈ records, x.entry = e) : next.Recalls records := by
  have sees : ∀ (e : Entry) {e' : Entry}, answer = .ok e →
      (r.sighting.observe now e).seen = some e' → ∃ x ∈ records, x.entry = e' := by
    intro e e' wrote seen
    cases Option.some.inj seen
    exact stored e wrote
  cases writes with
  | @succeeded goal w e stage =>
      refine ⟨fun e' seen => sees e rfl ?_, ?_⟩
      · rw [succeeded_sighting] at seen
        exact seen
      · cases goal <;> trivial
  | failed stage =>
      refine ⟨fun e' seen => ?_, plans_failed _ _ _⟩
      rw [failed_sighting] at seen
      exact recalls.seen e' seen
  | released e stage => exact ⟨fun e' seen => sees e rfl seen, trivial⟩
  | kept stage => exact ⟨recalls.seen, trivial⟩
  | exhausted => exact ⟨recalls.seen, trivial⟩

end Run

namespace Contest

/-- The store is what the log says, and every member recalls what was stored. -/
structure Chronicle (c : Contest) : Prop where
  started : ∀ fact ∈ c.log, ∀ id, fact.member? = some id → Fact.started id ∈ c.log
  present : ∀ id m, c.members.get? id = some m → Fact.started id ∈ c.log
  keeps : Keeps c.store c.log c.now
  recalls : ∀ id m, c.members.get? id = some m →
    m.run.Recalls (c.log.records m.run.candidate.resource)

theorem chronicle_empty : Chronicle .empty where
  started := by intro fact member; cases member
  present := by intro id m present; cases present
  keeps := by
    refine ⟨fun key i x atIndex => ?_, fun key => rfl, fun key x member => ?_⟩
    · cases atIndex
    · cases member
  recalls := by intro id m present; cases present

theorem chronicle_turn {c : Contest} (store : MemoryStore) {id : Nat} {m next : Member}
    {facts : List Fact} (before : c.Chronicle) (present : c.members.get? id = some m)
    (step : Turn id c.now m next facts) (keeps : Keeps store (c.log ++ facts) c.now)
    (recalls : next.run.Recalls (Log.records (c.log ++ facts) next.run.candidate.resource)) :
    Chronicle ⟨c.now, store, c.members.put id next, c.log ++ facts⟩ where
  started := by
    intro fact member j about
    refine List.mem_append_left _ ?_
    rcases List.mem_append.mp member with member | member
    · exact before.started fact member j about
    · cases (member_of_turn step fact member).symm.trans about
      exact before.present id m present
  present := by
    intro j n found
    refine List.mem_append_left _ ?_
    rw [Table.get?_put] at found
    split at found
    · rename_i same
      subst same
      exact before.present id m present
    · exact before.present j n found
  keeps := keeps
  recalls := by
    intro j n found
    rw [Table.get?_put] at found
    split at found
    · cases Option.some.inj found
      exact recalls
    · simp only [Log.records_append]
      exact (before.recalls j n found).append _

theorem chronicle_others {c : Contest} {now : Instant} {store : MemoryStore}
    {members : Table Nat Member} {facts : List Fact} (before : c.Chronicle)
    (kept : ∀ id m, members.get? id = some m → c.members.get? id = some m)
    (known : ∀ fact ∈ facts, ∀ id, fact.member? = some id → Fact.started id ∈ c.log)
    (keeps : Keeps store (c.log ++ facts) now) :
    Chronicle ⟨now, store, members, c.log ++ facts⟩ where
  started := by
    intro fact member id about
    refine List.mem_append_left _ ?_
    rcases List.mem_append.mp member with member | member
    · exact before.started fact member id about
    · exact known fact member id about
  present := fun id m found => List.mem_append_left _ (before.present id m (kept id m found))
  keeps := keeps
  recalls := by
    intro id m found
    simp only [Log.records_append]
    exact (before.recalls id m (kept id m found)).append _

theorem chronicle_start {c : Contest} (before : c.Chronicle) (id : Nat) (candidate : Candidate) :
    Chronicle ⟨c.now, c.store, c.members.put id { run := .start candidate c.now },
      c.log ++ [.started id]⟩ where
  started := by
    intro fact member j about
    rcases List.mem_append.mp member with member | member
    · exact List.mem_append_left _ (before.started fact member j about)
    · cases List.mem_singleton.mp member
      cases Option.some.inj about
      exact List.mem_append_right _ (List.mem_singleton_self _)
  present := by
    intro j n found
    rw [Table.get?_put] at found
    split at found
    · rename_i same
      subst same
      exact List.mem_append_right _ (List.mem_singleton_self _)
    · exact List.mem_append_left _ (before.present j n found)
  keeps := before.keeps.quiet (Log.not_stores_singleton (by simp))
  recalls := by
    intro j n found
    rw [Table.get?_put] at found
    split at found
    · cases Option.some.inj found
      refine ⟨fun e seen => ?_, trivial⟩
      cases seen
    · simp only [Log.records_append]
      exact (before.recalls j n found).append _

theorem chronicle_read {c : Contest} {id : Nat} {m : Member} {goal : Goal} {wall : Timestamp}
    {next : Run} {effects : List Effect} (before : c.Chronicle)
    (present : c.members.get? id = some m) (stage : m.run.stage = .reading goal wall)
    (reads : m.run.Reads c.now goal wall (.ok (c.store.get? m.run.candidate.resource)) next
      effects) :
    Chronicle ⟨c.now, c.store, c.members.put id (m.after id (next, effects)),
      c.log ++ (readFacts id c.now (.ok (c.store.get? m.run.candidate.resource)) ++
        m.facts id c.now (next, effects))⟩ := by
  have keeps := before.keeps.quiet (Log.not_stores_append
    (Log.not_stores_readFacts id c.now (.ok (c.store.get? m.run.candidate.resource)))
    (Log.not_stores_facts id c.now m (next, effects)))
  refine chronicle_turn _ before present (.read stage reads) keeps ?_
  rw [Member.after_run, reads.candidate, Log.records_append]
  refine (Run.recalls_read reads (before.recalls id m present) fun e found => ?_).append _
  obtain ⟨x, last, same⟩ := before.keeps.seen found
  exact ⟨x, List.mem_of_getLast? last, same⟩

theorem chronicle_write {c : Contest} {id : Nat} {m : Member} {w : Write} {next : Run}
    {effects : List Effect} (before : c.Chronicle) (present : c.members.get? id = some m)
    (called : m.run.call? = some (.write w))
    (writes : m.run.Writes c.now (c.store.write m.run.candidate.resource w).1 next effects) :
    Chronicle ⟨c.now, (c.store.write m.run.candidate.resource w).2,
      c.members.put id (m.after id (next, effects)),
      c.log ++ (writeFacts id c.now m.run.candidate.resource
        (c.store.write m.run.candidate.resource w).1 ++ m.facts id c.now (next, effects))⟩ := by
  generalize run : c.store.write m.run.candidate.resource w = answered at writes ⊢
  obtain ⟨answer, store⟩ := answered
  have silent := Log.not_stores_facts id c.now m (next, effects)
  have candidate : (m.after id (next, effects)).run.candidate = m.run.candidate := by
    rw [Member.after_run]
    exact writes.candidate
  cases answer with
  | ok e =>
      refine chronicle_turn _ before present (.write called writes)
        (before.keeps.written id run silent) ?_
      rw [candidate, Keeps.records_written id e silent, if_pos rfl, Member.after_run]
      refine Run.recalls_write writes ((before.recalls id m present).append _) fun e' same => ?_
      cases same
      exact ⟨_, List.mem_append_right _ (List.mem_singleton_self _), rfl⟩
  | error err =>
      rw [MemoryStore.write_error run]
      refine chronicle_turn _ before present (.write called writes) (before.keeps.quiet silent) ?_
      rw [candidate, Member.after_run, Log.records_append]
      refine (Run.recalls_write writes (before.recalls id m present) fun e' same => ?_).append _
      cases same

theorem chronicle_step {c next : Contest} {move : Move} (before : c.Chronicle)
    (run : c.step move = some next) : next.Chronicle := by
  cases change_of_step run with
  | start unused => exact chronicle_start before _ _
  | @act id wall m next effects present acts =>
      refine chronicle_turn _ before present (.act acts)
        (before.keeps.quiet (Log.not_stores_facts _ _ _ _)) ?_
      rw [Member.after_run, acts.candidate, Log.records_append]
      exact (Run.recalls_act acts (before.recalls id m present)).append _
  | read present stage reads => exact chronicle_read before present stage reads
  | write present called writes => exact chronicle_write before present called writes
  | @request move id m present asks unasked =>
      refine chronicle_turn _ before present (.request unasked)
        (before.keeps.quiet (Log.not_stores_requestFacts id m)) ?_
      rw [Log.records_append]
      exact (before.recalls id m present).append _
  | repeated present asks asked => exact before
  | @trigger id m present =>
      have turned := chronicle_turn c.store before present .trigger
        (by rw [List.append_nil]; exact before.keeps)
        (by rw [List.append_nil]; exact before.recalls id m present)
      rwa [List.append_nil] at turned
  | @finish id m result present running =>
      refine chronicle_turn _ before present (.finish running)
        (before.keeps.quiet (Log.not_stores_singleton (by simp))) ?_
      rw [Log.records_append]
      exact (before.recalls id m present).append _
  | @vanish id m present =>
      refine chronicle_others before (fun j n found => Table.get?_of_get?_erase found)
        (fun fact member j about => ?_)
        (before.keeps.quiet (Log.not_stores_singleton (by simp)))
      cases List.mem_singleton.mp member
      cases Option.some.inj about
      exact before.present id m present
  | @foreign key w =>
      generalize run : c.store.write key w = answered
      obtain ⟨answer, store⟩ := answered
      cases answer with
      | ok e =>
          refine chronicle_others before (fun j n found => found) ?_
            (before.keeps.stored none run)
          intro fact member j about
          cases List.mem_singleton.mp member
          cases about
      | error err =>
          rw [MemoryStore.write_error run]
          refine chronicle_others before (fun j n found => found) ?_
            (before.keeps.quiet Log.not_stores_nil)
          intro fact member
          cases member
  | @pass time =>
      refine ⟨before.started, before.present, ?_, before.recalls⟩
      exact before.keeps.later (Nat.le_add_right c.now time.nanos)

theorem play_induction {P : Contest → Prop} (start : P .empty)
    (step : ∀ {c next move}, P c → c.step move = some next → P next)
    {moves : List Move} {c : Contest} (run : Contest.empty.play moves = some c) : P c := by
  suffices generalized : ∀ (moves : List Move) (c₀ : Contest), P c₀ →
      c₀.play moves = some c → P c from generalized moves _ start run
  intro moves
  induction moves with
  | nil =>
      intro c₀ holds run
      cases Option.some.inj run
      exact holds
  | cons move moves ih =>
      intro c₀ holds run
      obtain ⟨c₁, first, rest⟩ := Option.bind_eq_some_iff.mp run
      exact ih c₁ (step holds first) rest

theorem chronicle_of_play {moves : List Move} {c : Contest}
    (run : Contest.empty.play moves = some c) : c.Chronicle :=
  play_induction chronicle_empty chronicle_step run

end Contest

end LeaderLease
