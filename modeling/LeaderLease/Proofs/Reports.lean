import LeaderLease.Proofs.Passage
import Mathlib.Data.List.Destutter

/-!
# What a run reports

`Log.tidings` keeps of the log what a member saw of its lease and what it reported, in order. A step
reports the holder of the entry that it has just seen, if that is not the holder reported last
(`Sighting.tidings`), so the reports are the holders seen with the repeated ones left out. Entries
are seen in the order of their versions; as every version was stored once, the holders reported are
among those that the key had, in their order. `faithful_reports` proves this after any moves in any
order.
-/

set_option autoImplicit false

namespace LeaderLease

open scoped List

/-- What a member learns of its lease, and what it passes on. -/
inductive Tiding where
  | seen (e : Entry)
  | told (holder : String)
deriving DecidableEq, Repr

def Tiding.entry? : Tiding → Option Entry
  | .seen e => some e
  | .told _ => none

def Tiding.holder? : Tiding → Option String
  | .seen _ => none
  | .told holder => some holder

def Fact.tiding? (id : Nat) : Fact → Option Tiding
  | .observed i _ e => if i = id then some (.seen e) else none
  | .reported i holder => if i = id then some (.told holder) else none
  | _ => none

def Log.tidings (log : Log) (id : Nat) : List Tiding := log.filterMap (Fact.tiding? id)

/-- The entries that were seen, the latest last. -/
def entriesSeen (tidings : List Tiding) : List Entry := tidings.filterMap Tiding.entry?

/-- The holders that were reported, the latest last. -/
def holdersTold (tidings : List Tiding) : List String := tidings.filterMap Tiding.holder?

/-- What a run that remembers `s` adds when it sees an entry, or none. -/
def Sighting.tidings (s : Sighting) : Option Entry → List Tiding
  | some e => .seen e :: ((s.news e).map Tiding.told).toList
  | none => []

/-- The memory of a run after it has seen an entry, or none. -/
def Sighting.see (s : Sighting) (now : Instant) : Option Entry → Sighting
  | some e => s.observe now e
  | none => s

namespace Contest

variable (c : Contest) (id : Nat)

theorem observations_eq : c.observations id = entriesSeen (c.log.tidings id) := by
  rw [observations, entriesSeen, Log.tidings, List.filterMap_filterMap]
  congr 1
  funext fact
  cases fact with
  | observed i time e | reported i holder =>
      by_cases own : i = id <;> simp [Fact.tiding?, own, Tiding.entry?]
  | _ => rfl

theorem reports_eq : c.reports id = holdersTold (c.log.tidings id) := by
  rw [reports, holdersTold, Log.tidings, List.filterMap_filterMap]
  congr 1
  funext fact
  cases fact with
  | observed i time e | reported i holder =>
      by_cases own : i = id <;> simp [Fact.tiding?, own, Tiding.holder?]
  | _ => rfl

theorem history_eq (key : String) : c.history key = (c.log.records key).map (·.entry) := by
  rw [history, Log.records, List.map_filterMap]
  congr 1
  funext fact
  cases fact with
  | stored author time k e => by_cases same : k = key <;> simp [Fact.record?, same]
  | _ => rfl

end Contest

/-! ## The tidings of a step -/

def Effect.tiding? : Effect → Option Tiding
  | .report holder => some (.told holder)
  | _ => none

namespace Log

variable {id : Nat} {now : Instant} {log facts : Log}

theorem tidings_append (log more : Log) (id : Nat) :
    tidings (log ++ more) id = log.tidings id ++ more.tidings id :=
  List.filterMap_append

theorem tidings_of_elsewhere (elsewhere : ∀ fact ∈ facts, fact.member? ≠ some id) :
    facts.tidings id = [] := by
  refine List.filterMap_eq_nil_iff.mpr fun fact member => ?_
  have other := elsewhere fact member
  cases fact with
  | observed i _ _ | reported i _ => exact if_neg fun same => other (congrArg some same)
  | _ => rfl

theorem tidings_affect (id : Nat) (m : Member) (effect : Effect) :
    tidings (Contest.affect id m effect).2 id = effect.tiding?.toList := by
  cases effect with
  | cancelWork | abortWork =>
      simp only [Contest.affect]
      split <;> rfl
  | _ => simp [tidings, Contest.affect, Fact.tiding?, Effect.tiding?]

theorem tidings_facts (id : Nat) (now : Instant) (m : Member) (r : Run) (effects : List Effect) :
    tidings (m.facts id now (r, effects)) id = effects.filterMap Effect.tiding? := by
  have ofEffects : tidings (Contest.affectAll id { m with run := r } effects).2 id =
      effects.filterMap Effect.tiding? :=
    Contest.filterMap_affectAll (tidings_affect id) _ effects
  have ofArrival : tidings (Contest.arrival id now r) id = [] := by
    unfold Contest.arrival
    cases r.stage <;> rfl
  rw [Member.facts, tidings_append, ofEffects, ofArrival, List.append_nil]

theorem tidings_readFacts (id : Nat) (now : Instant) (found : Option Entry) :
    tidings (readFacts id now (.ok found)) id = (found.map Tiding.seen).toList := by
  cases found <;> simp [readFacts, tidings, Fact.tiding?]

theorem tidings_writeFacts (id : Nat) (now : Instant) (key : String) (answer : WriteAnswer) :
    tidings (writeFacts id now key answer) id = (answer.toOption.map Tiding.seen).toList := by
  cases answer <;> simp [writeFacts, tidings, List.filterMap_cons, Fact.tiding?, Except.toOption]

theorem tidings_requestFacts (id : Nat) (m : Member) : tidings (m.requestFacts id) id = [] := by
  unfold Member.requestFacts
  split <;> rfl

end Log

/-- A step by which a run sees an entry, or none: it remembers the entry, and reports its holder if
that is news. -/
structure Run.Sees (r : Run) (now : Instant) (found : Option Entry) (next : Run)
    (effects : List Effect) : Prop where
  sighting : next.sighting = r.sighting.see now found
  tidings : (found.map Tiding.seen).toList ++ effects.filterMap Effect.tiding? =
    r.sighting.tidings found

namespace Run

variable {r next : Run} {now : Instant} {effects : List Effect}

theorem sees_observe (r : Run) (now : Instant) (e : Entry) :
    r.Sees now (some e) (r.observe now e).1 (r.observe now e).2 where
  sighting := rfl
  tidings := by
    simp only [observe, Sighting.tidings]
    cases r.sighting.news e <;> rfl

theorem Sees.goOn {found : Option Entry} {after : Run} (sees : r.Sees now found next effects)
    (sighting : after.sighting = next.sighting) : r.Sees now found after effects where
  sighting := sighting.trans sees.sighting
  tidings := sees.tidings

theorem sees_none (sighting : next.sighting = r.sighting)
    (silent : effects.filterMap Effect.tiding? = []) : r.Sees now none next effects where
  sighting := sighting
  tidings := silent

theorem Acts.sees {v : View} (acts : r.Acts v next effects) : r.Sees now none next effects := by
  refine sees_none acts.sighting ?_
  cases acts <;> rfl

theorem Reads.sees {goal : Goal} {wall : Timestamp} {found : Option Entry}
    (reads : r.Reads now goal wall (.ok found) next effects) : r.Sees now found next effects := by
  cases reads with
  | absent => exact sees_none rfl rfl
  | held e => exact (r.sees_observe now e).goOn (failed_sighting _ now goal)
  | own e | free e => exact (r.sees_observe now e).goOn rfl
  | overflow e =>
      have silent : [Effect.stopListening].filterMap Effect.tiding? = [] := rfl
      refine ⟨rfl, ?_⟩
      rw [List.filterMap_append, silent, List.append_nil]
      exact (r.sees_observe now e).tidings

theorem Writes.sees {answer : WriteAnswer} (writes : r.Writes now answer next effects) :
    r.Sees now answer.toOption next effects := by
  cases writes with
  | succeeded e => exact (r.sees_observe now e).goOn (succeeded_sighting _ now _)
  | failed => exact sees_none (failed_sighting r now _) rfl
  | released e => exact (r.sees_observe now e).goOn rfl
  | kept | exhausted => exact sees_none rfl rfl

end Run

/-! ## What a run has seen and told -/

/-- The last of the values that are kept is the last of all values. -/
theorem destutter'_concat {α : Type} [DecidableEq α] (a b : α) (xs : List α) :
    (xs ++ [b]).destutter' (· ≠ ·) a =
      xs.destutter' (· ≠ ·) a ++ if xs.getLast?.getD a = b then [] else [b] := by
  induction xs generalizing a with
  | nil => by_cases same : a = b <;> simp [same]
  | cons x xs ih =>
      rw [List.cons_append, List.getLast?_cons, Option.getD_some, List.destutter'_cons,
        List.destutter'_cons]
      by_cases same : a = x
      · subst same
        simp only [ne_eq, not_true_eq_false, if_false]
        exact ih a
      · simp only [ne_eq, same, not_false_eq_true, if_true, List.cons_append, ih x]

/-- The holders of entries, in order. -/
def holdersOf (entries : List Entry) : List String := entries.map (·.lease.holder)

/-- How a run stands to what its member has seen and reported, and to the records of its key. -/
structure Run.Recounts (id : Nat) (r : Run) (tidings : List Tiding) (records : List Record) :
    Prop where
  seen : r.sighting.seen = (entriesSeen tidings).getLast?
  reported : r.sighting.reported = (holdersOf (entriesSeen tidings)).getLast?.getD ""
  told : (holdersOf (entriesSeen tidings)).destutter' (· ≠ ·) "" = "" :: holdersTold tidings
  ordered : (entriesSeen tidings).Pairwise fun e later => e.version ≤ later.version
  stored : ∀ e ∈ entriesSeen tidings, ∃ x ∈ records, x.entry = e
  /-- A run sees what it stores. -/
  own : ∀ x ∈ records, x.author = some id → x.entry ∈ entriesSeen tidings

theorem entriesSeen_append (xs ys : List Tiding) :
    entriesSeen (xs ++ ys) = entriesSeen xs ++ entriesSeen ys := List.filterMap_append

theorem holdersTold_append (xs ys : List Tiding) :
    holdersTold (xs ++ ys) = holdersTold xs ++ holdersTold ys := List.filterMap_append

namespace Sighting

variable (s : Sighting) (e : Entry)

theorem entriesSeen_tidings : entriesSeen (s.tidings (some e)) = [e] := by
  simp only [tidings]
  cases s.news e <;> rfl

theorem holdersTold_tidings : holdersTold (s.tidings (some e)) =
    if s.reported = e.lease.holder then [] else [e.lease.holder] := by
  by_cases same : e.lease.holder = s.reported
  · simp [tidings, news, same, holdersTold, Tiding.holder?]
  · simp only [tidings, news, if_neg same, if_neg (Ne.symm same)]
    rfl

end Sighting

namespace Run.Recounts

variable {id : Nat} {r next : Run} {now : Instant} {effects : List Effect}
  {tidings : List Tiding} {records more : List Record}

theorem start (candidate : Candidate) (now : Instant)
    (absent : ∀ x ∈ records, x.author ≠ some id) :
    (Run.start candidate now).Recounts id [] records :=
  ⟨rfl, rfl, rfl, .nil, nofun, fun x member author => absurd author (absent x member)⟩

theorem grow (recounts : r.Recounts id tidings records) (same : next.sighting = r.sighting)
    (others : ∀ x ∈ more, x.author ≠ some id) : next.Recounts id tidings (records ++ more) where
  seen := same ▸ recounts.seen
  reported := same ▸ recounts.reported
  told := recounts.told
  ordered := recounts.ordered
  stored := by
    intro e member
    obtain ⟨x, before, entry⟩ := recounts.stored e member
    exact ⟨x, List.mem_append_left _ before, entry⟩
  own := by
    intro x member author
    rcases List.mem_append.mp member with before | added
    · exact recounts.own x before author
    · exact absurd author (others x added)

/-- The run sees an entry that is no older than any record there was. -/
theorem observe {e : Entry} (recounts : r.Recounts id tidings records)
    (sighting : next.sighting = r.sighting.observe now e)
    (latest : ∀ x ∈ records, x.entry.version ≤ e.version)
    (found : ∃ x ∈ records ++ more, x.entry = e)
    (added : ∀ x ∈ more, x.author = some id → x.entry = e) :
    next.Recounts id (tidings ++ r.sighting.tidings (some e)) (records ++ more) := by
  have entries : entriesSeen (tidings ++ r.sighting.tidings (some e)) =
      entriesSeen tidings ++ [e] := by
    rw [entriesSeen_append, Sighting.entriesSeen_tidings]
  have holders : holdersOf (entriesSeen tidings ++ [e]) =
      holdersOf (entriesSeen tidings) ++ [e.lease.holder] := List.map_append
  refine ⟨?_, ?_, ?_, ?_, ?_, ?_⟩
  · rw [entries, sighting, List.getLast?_concat]
    rfl
  · rw [entries, sighting, holders, List.getLast?_concat]
    rfl
  · rw [entries, holders, destutter'_concat, recounts.told, ← recounts.reported,
      holdersTold_append, Sighting.holdersTold_tidings]
    rfl
  · rw [entries, List.pairwise_append]
    refine ⟨recounts.ordered, List.pairwise_singleton _ _, fun before member e' last => ?_⟩
    cases List.mem_singleton.mp last
    obtain ⟨x, inRecords, rfl⟩ := recounts.stored before member
    exact latest x inRecords
  · intro e' member
    rw [entries] at member
    rcases List.mem_append.mp member with member | member
    · obtain ⟨x, before, entry⟩ := recounts.stored e' member
      exact ⟨x, List.mem_append_left _ before, entry⟩
    · cases List.mem_singleton.mp member
      exact found
  · intro x member author
    rw [entries]
    rcases List.mem_append.mp member with before | after
    · exact List.mem_append_left _ (recounts.own x before author)
    · rw [added x after author]
      exact List.mem_append_right _ (List.mem_singleton_self _)

theorem see {found : Option Entry} (sees : r.Sees now found next effects)
    (recounts : r.Recounts id tidings records)
    (latest : ∀ e, found = some e → ∀ x ∈ records, x.entry.version ≤ e.version)
    (kept : ∀ e, found = some e → ∃ x ∈ records ++ more, x.entry = e)
    (added : ∀ x ∈ more, x.author = some id → found = some x.entry) :
    next.Recounts id (tidings ++ r.sighting.tidings found) (records ++ more) := by
  cases found with
  | none =>
      have quiet : r.sighting.tidings none = [] := rfl
      rw [quiet, List.append_nil]
      refine recounts.grow sees.sighting fun x after author => ?_
      cases added x after author
  | some e =>
      refine recounts.observe sees.sighting (latest e rfl) (kept e rfl) fun x after author => ?_
      exact (Option.some.inj (added x after author)).symm

end Run.Recounts

namespace Contest

variable {moves : List Move} {c : Contest} {id : Nat} {m : Member}

/-- What a member keeps in its sighting and has reported is what it has seen. -/
theorem recounts_of_play (run : Contest.empty.play moves = some c)
    (present : c.members.get? id = some m) :
    m.run.Recounts id (c.log.tidings id) (c.log.records m.run.candidate.resource) := by
  refine member_induction (P := fun _ c m =>
    m.run.Recounts id (c.log.tidings id) (c.log.records m.run.candidate.resource)) ?_ run present
  intro moves c next move n reached step bearing ih
  have chronicle := chronicle_of_play reached
  have quiet : ∀ {facts : Log} {key : String}, ¬ facts.Stores →
      ∀ x ∈ facts.records key, x.author ≠ some id := by
    intro facts key silent x member
    rw [Log.records_of_not_stores silent] at member
    cases member
  cases bearing with
  | start unused log =>
      have unknown : c.log.tidings id = [] := Log.tidings_of_elsewhere fun fact member about =>
        unused (chronicle.started fact member id about)
      have silent : ¬ Log.Stores [.started id] := Log.not_stores_singleton (by simp)
      rw [log, Log.tidings_append, unknown, Log.records_append_of_not_stores _ silent]
      exact .start _ _ (chronicle.unauthored unused)
  | @act wall m r effects present acts log =>
      have sees : m.run.Sees c.now none r effects := acts.sees
      have told : effects.filterMap Effect.tiding? = [] := sees.tidings
      rw [Member.after_run, acts.candidate, log, Log.tidings_append, Log.tidings_facts, told,
        List.append_nil, Log.records_append]
      exact (ih m present).grow sees.sighting (quiet (Log.not_stores_facts id c.now m (r, effects)))
  | @read m goal wall r effects present stage reads log =>
      have silent := Log.not_stores_append
        (Log.not_stores_readFacts id c.now (.ok (c.store.get? m.run.candidate.resource)))
        (Log.not_stores_facts id c.now m (r, effects))
      rw [Member.after_run, reads.candidate, log, Log.records_append, Log.tidings_append,
        Log.tidings_append, Log.tidings_readFacts, Log.tidings_facts, reads.sees.tidings]
      refine (ih m present).see reads.sees (fun e found x member => ?_) (fun e found => ?_)
        fun x member author => absurd author (quiet silent x member)
      · obtain ⟨y, last, rfl⟩ := chronicle.keeps.seen found
        have numbered := chronicle.keeps.numbered m.run.candidate.resource
        rw [numbered.last_version last]
        exact numbered.version_le_length member
      · obtain ⟨y, last, same⟩ := chronicle.keeps.seen found
        exact ⟨y, List.mem_append_left _ (List.mem_of_getLast? last), same⟩
  | @write m w r effects present called writes log =>
      have numbered := chronicle.keeps.numbered m.run.candidate.resource
      have silent := Log.not_stores_facts id c.now m (r, effects)
      rw [Member.after_run, writes.candidate, log, Log.tidings_append, Log.tidings_append,
        Log.tidings_writeFacts, Log.tidings_facts, writes.sees.tidings]
      generalize wrote : c.store.write m.run.candidate.resource w = answered at writes ⊢
      obtain ⟨answer, store⟩ := answered
      cases answer with
      | error err =>
          rw [Log.records_append]
          exact (ih m present).see writes.sees nofun nofun
            fun x member author => absurd author (quiet silent x member)
      | ok e =>
          rw [Keeps.records_written id e silent, if_pos rfl]
          refine (ih m present).see writes.sees ?_ ?_ ?_
          · rintro e' same x member
            cases Option.some.inj same
            have bound := numbered.version_le_length member
            rw [chronicle.keeps.next_version wrote]
            omega
          · rintro e' same
            cases Option.some.inj same
            exact ⟨_, List.mem_append_right _ (List.mem_singleton_self _), rfl⟩
          · intro x member author
            cases List.mem_singleton.mp member
            rfl
  | @request _ m present asks unasked log =>
      rw [log, Log.tidings_append, Log.tidings_requestFacts, List.append_nil, Log.records_append]
      exact (ih m present).grow rfl (quiet (Log.not_stores_requestFacts id m))
  | @trigger m present log =>
      rw [log]
      exact ih m present
  | @finish m result present running log =>
      have told : Log.tidings [.workEnded id result] id = [] := rfl
      rw [log, Log.tidings_append, told, List.append_nil, Log.records_append]
      exact (ih m present).grow rfl (quiet (Log.not_stores_singleton (by simp)))
  | @aside move n facts present repeated elsewhere log =>
      rw [log, Log.tidings_append, Log.tidings_of_elsewhere elsewhere, List.append_nil,
        Log.records_append]
      refine (ih n present).grow rfl fun x member author => ?_
      obtain ⟨fact, inFacts, about⟩ := Log.fact_of_author member author
      exact elsewhere fact inFacts about

end Contest

/-! ## Reports and the records of the key -/

theorem exists_destutter' {α : Type} [DecidableEq α] (a : α) (xs : List α) :
    ∃ rest, xs.destutter' (· ≠ ·) a = a :: rest := by
  induction xs with
  | nil => exact ⟨[], rfl⟩
  | cons x xs ih =>
      rw [List.destutter'_cons]
      split
      · exact ⟨_, rfl⟩
      · exact ih

namespace Numbered

variable {records : List Record}

theorem drop_of_version (numbered : Numbered records) {x : Record} (member : x ∈ records) :
    records.drop (x.entry.version - 1) = x :: records.drop x.entry.version := by
  obtain ⟨i, inside, rfl⟩ := List.mem_iff_getElem.mp member
  have version := numbered i _ (List.getElem?_eq_getElem inside)
  rw [version, Nat.add_sub_cancel, List.drop_eq_getElem_cons inside]

/-- The changes of holder in entries that were seen in the order of their versions, from one on that
was held by `last`, come in the same order among the records from there on. -/
theorem changes_sublist_drop (numbered : Numbered records) {entries : List Entry} {last : String}
    {version : Nat} {holders : List String}
    (stored : ∀ e ∈ entries, ∃ x ∈ records, x.entry = e)
    (ordered : entries.Pairwise fun e later => e.version ≤ later.version)
    (after : ∀ e ∈ entries, version ≤ e.version)
    (same : ∀ e ∈ entries, e.version = version → e.lease.holder = last)
    (changes : (holdersOf entries).destutter' (· ≠ ·) last = last :: holders) :
    holders <+ (records.drop version).map (·.entry.lease.holder) := by
  induction entries generalizing last version holders with
  | nil =>
      cases changes
      exact List.nil_sublist _
  | cons e later ih =>
      obtain ⟨first, orderedLater⟩ := List.pairwise_cons.mp ordered
      have storedLater : ∀ e ∈ later, ∃ x ∈ records, x.entry = e :=
        fun e' member => stored e' (List.mem_cons_of_mem _ member)
      rw [holdersOf, List.map_cons, List.destutter'_cons] at changes
      split at changes
      · rename_i news
        obtain ⟨x, member, rfl⟩ := stored e List.mem_cons_self
        obtain ⟨rest, split⟩ := exists_destutter' x.entry.lease.holder (holdersOf later)
        rw [holdersOf] at split
        rw [split] at changes
        cases (List.cons.inj changes).2
        have newer : version < x.entry.version :=
          Nat.lt_of_le_of_ne (after _ List.mem_cons_self) fun equal =>
            news (same _ List.mem_cons_self equal.symm).symm
        have tail : rest <+ (records.drop x.entry.version).map (·.entry.lease.holder) := by
          refine ih storedLater orderedLater first (fun e' inLater equal => ?_) split
          obtain ⟨y, inRecords, rfl⟩ := storedLater e' inLater
          rw [numbered.unique inRecords member equal]
        have whole : x.entry.lease.holder :: rest <+
            (records.drop (x.entry.version - 1)).map (·.entry.lease.holder) := by
          rw [numbered.drop_of_version member]
          exact tail.cons_cons _
        exact whole.trans ((List.drop_sublist_drop_left records (by omega)).map _)
      · exact ih storedLater orderedLater
          (fun e' member => after e' (List.mem_cons_of_mem _ member))
          (fun e' member => same e' (List.mem_cons_of_mem _ member)) changes

end Numbered

namespace Contest

variable {moves : List Move} {c : Contest} {id : Nat} {m : Member}

/-- A run reports the holders that it sees, each unless it is the one reported last; it sees the
entries of its key in the order of their versions, and what it reports is, in this order, among the
holders that the key has had. -/
theorem faithful_reports (run : Contest.empty.play moves = some c)
    (present : c.members.get? id = some m) :
    ("" :: (c.observations id).map (·.lease.holder)).destutter (· ≠ ·) = "" :: c.reports id ∧
      ((c.observations id).map (·.version)).Pairwise (· ≤ ·) ∧
      c.reports id <+ (c.history m.run.candidate.resource).map (·.lease.holder) := by
  have recounts := recounts_of_play run present
  have numbered := (chronicle_of_play run).keeps.numbered m.run.candidate.resource
  rw [observations_eq, reports_eq, history_eq, List.map_map]
  refine ⟨recounts.told, List.pairwise_map.mpr recounts.ordered, ?_⟩
  have sublist := numbered.changes_sublist_drop recounts.stored recounts.ordered
    (fun _ _ => Nat.zero_le _) (fun e member none => ?_) recounts.told
  · rwa [List.drop_zero] at sublist
  · obtain ⟨x, inRecords, rfl⟩ := recounts.stored e member
    have positive := numbered.version_pos inRecords
    omega

/-- A run finds the lease held by x, and held by x again. Then y takes it and gives it back, and the
run finds it free and acquires it. -/
def passedOverUnseen : List Move :=
  [.foreign "test/lease" (.create ⟨"x", .ofSeconds 10, .ofUnix 0 0, .ofUnix 0 0, 0⟩),
    .start 1 ⟨"a", "test/lease", .ofSeconds 10, .ofSeconds 2⟩, .act 1 (.ofUnix 0 0),
    .act 1 (.ofUnix 0 0), .call 1, .pass (.ofSeconds 2), .act 1 (.ofUnix 2 0), .call 1,
    .foreign "test/lease" (.update 1 ⟨"y", .ofSeconds 10, .ofUnix 2 0, .ofUnix 2 0, 1⟩),
    .foreign "test/lease" (.update 2 ⟨"", .ofSeconds 1, .ofUnix 3 0, .ofUnix 3 0, 1⟩),
    .pass (.ofSeconds 2), .act 1 (.ofUnix 4 0), .call 1, .call 1]

theorem faithful_reports_passedOverUnseen :
    ∃ c m, Contest.empty.play passedOverUnseen = some c ∧ c.members.get? 1 = some m ∧
      (c.observations 1).map (·.version) = [1, 1, 3, 4] ∧ c.reports 1 = ["x", "", "a"] ∧
      c.reports 1 <+ (c.history m.run.candidate.resource).map (·.lease.holder) := by
  have played : ((Contest.empty.play passedOverUnseen).bind fun c => (c.members.get? 1).map fun _ =>
      ((c.observations 1).map (·.version), c.reports 1)) = some ([1, 1, 3, 4], ["x", "", "a"]) := by
    decide +kernel
  obtain ⟨c, run, rest⟩ := Option.bind_eq_some_iff.mp played
  obtain ⟨m, present, found⟩ := Option.map_eq_some_iff.mp rest
  simp only [Prod.mk.injEq] at found
  exact ⟨c, m, run, present, found.1, found.2, (faithful_reports run present).2.2⟩

end Contest

end LeaderLease
