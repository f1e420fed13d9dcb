import LeaderLease.Proofs.Handover
import LeaderLease.Proofs.Reports

/-!
# What a run reports last

A run that stops leading has reported so when the holder that it reported last is not itself. It has
not when it looked at its lease for the last time before somebody else replaced it
(`Contest.ReplacedUnseen`): a write that is refused shows nothing of the record that is there
instead, and neither the release nor the loss of the lease reads it. `learnsOfItsEnd_iff` proves
that a run that comes to an outcome misses its end in this way only; one that breaks down may also
leave the lease under its name (`Contest.HoldsOn`).
-/

set_option autoImplicit false

namespace LeaderLease

theorem getLast?_destutter' {α : Type} [DecidableEq α] (a : α) (xs : List α) :
    (xs.destutter' (· ≠ ·) a).getLast? = some (xs.getLast?.getD a) := by
  induction xs generalizing a with
  | nil => rfl
  | cons x xs ih =>
      rw [List.destutter'_cons, List.getLast?_cons, Option.getD_some]
      split
      · rw [List.getLast?_cons, ih x, Option.getD_some]
      · rename_i same
        rw [not_not.mp same]
        exact ih x

theorem mem_destutter'_iff {α : Type} [DecidableEq α] (a b : α) (xs : List α) :
    b ∈ xs.destutter' (· ≠ ·) a ↔ b ∈ a :: xs := by
  induction xs generalizing a with
  | nil => rfl
  | cons x xs ih =>
      rw [List.destutter'_cons]
      split
      · rw [List.mem_cons, ih x, ← List.mem_cons]
      · rename_i same
        rw [ih a, not_not.mp same, List.mem_cons, List.mem_cons, List.mem_cons, or_self_left]

namespace Run.Recounts

variable {id : Nat} {r : Run} {tidings : List Tiding} {records : List Record} {e e' : Entry}

/-- Whoever was seen was reported. -/
theorem mem_told (recounts : r.Recounts id tidings records) (seen : e ∈ entriesSeen tidings)
    (held : e.lease.holder ≠ "") : e.lease.holder ∈ holdersTold tidings := by
  have kept : e.lease.holder ∈ "" :: holdersTold tidings := by
    rw [← recounts.told, mem_destutter'_iff]
    exact List.mem_cons_of_mem _ (List.mem_map_of_mem seen)
  exact (List.mem_cons.mp kept).resolve_left held

/-- Once a holder was reported, the holder reported last is the holder seen last. -/
theorem told_last (recounts : r.Recounts id tidings records)
    (last : (entriesSeen tidings).getLast? = some e) (spoken : holdersTold tidings ≠ []) :
    (holdersTold tidings).getLast? = some e.lease.holder := by
  have seen : (holdersOf (entriesSeen tidings)).getLast? = some e.lease.holder := by
    rw [holdersOf, List.getLast?_map, last, Option.map_some]
  have kept := getLast?_destutter' "" (holdersOf (entriesSeen tidings))
  rw [recounts.told, seen, Option.getD_some, List.getLast?_cons,
    List.getLast?_eq_some_getLast spoken, Option.getD_some] at kept
  rw [List.getLast?_eq_some_getLast spoken, kept]

theorem version_le_last (recounts : r.Recounts id tidings records)
    (last : (entriesSeen tidings).getLast? = some e) (seen : e' ∈ entriesSeen tidings) :
    e'.version ≤ e.version := by
  obtain ⟨before, split⟩ := List.getLast?_eq_some_iff.mp last
  have ordered := recounts.ordered
  rw [split, List.pairwise_append] at ordered
  rw [split] at seen
  rcases List.mem_append.mp seen with earlier | atEnd
  · exact ordered.2.2 e' earlier e (List.mem_singleton_self e)
  · cases List.mem_singleton.mp atEnd
    exact le_rfl

/-- What a run has seen last is the last record of its key, or somebody else has replaced it. -/
theorem last_or_replaced (recounts : r.Recounts id tidings records) (numbered : Numbered records)
    (last : (entriesSeen tidings).getLast? = some e) :
    ∃ x ∈ records, x.entry = e ∧ (records.getLast? = some x ∨
      ∃ next ∈ records, next.entry.version = e.version + 1 ∧ next.author ≠ some id) := by
  obtain ⟨x, member, rfl⟩ := recounts.stored e (List.mem_of_getLast? last)
  refine ⟨x, member, rfl, ?_⟩
  have inhabited := List.ne_nil_of_mem member
  have final := List.getLast?_eq_some_getLast inhabited
  by_cases atEnd : x.entry.version = records.length
  · left
    rw [final, numbered.unique (List.mem_of_getLast? final) member
      ((numbered.last_version final).trans atEnd.symm)]
  · right
    have bound := numbered.version_le_length member
    have inRange : x.entry.version + 1 ≤ (records.getLast inhabited).entry.version := by
      rw [numbered.last_version final]
      omega
    obtain ⟨next, after, version⟩ := numbered.exists_version (List.mem_of_getLast? final) _
      (Nat.succ_pos _) inRange
    refine ⟨next, after, version, fun mine => ?_⟩
    have seen := recounts.version_le_last last (recounts.own next after mine)
    omega

end Run.Recounts

namespace Contest

/-- The holder that the member reported last is somebody else, or nobody. -/
def LearnsOfItsEnd (c : Contest) (id : Nat) (identity : String) : Prop :=
  ∃ holder, (c.reports id).getLast? = some holder ∧ holder ≠ identity

/-- The record that the member saw last names it, and somebody else replaced that record. -/
def ReplacedUnseen (c : Contest) (id : Nat) (key identity : String) : Prop :=
  ∃ own ∈ c.log.records key, (c.observations id).getLast? = some own.entry ∧ own.Names identity ∧
    ∃ next ∈ c.log.records key, next.entry.version = own.entry.version + 1 ∧
      next.author ≠ some id

/-- The record that the member saw last names it, and is still there. -/
def HoldsOn (c : Contest) (id : Nat) (key identity : String) : Prop :=
  ∃ own : Record, c.store.get? key = some own.entry ∧
    (c.observations id).getLast? = some own.entry ∧ own.Names identity

variable {moves : List Move} {c : Contest} {id : Nat} {m : Member}

/-- A run that has led has reported whom it has seen last. -/
theorem reports_of_led (run : Contest.empty.play moves = some c)
    (present : c.members.get? id = some m) (named : m.run.candidate.identity ≠ "")
    (led : .published id .leading ∈ c.log) :
    ∃ e, (c.observations id).getLast? = some e ∧ (c.reports id).getLast? = some e.lease.holder := by
  have recounts := recounts_of_play run present
  obtain ⟨own, stored, claims⟩ := merited_of_play run id m present named led
  obtain ⟨holder, held⟩ := (Lease.isHeldBy_iff _ _).mp claims.2
  have seen := recounts.own own stored claims.1
  have last := List.getLast?_eq_some_getLast (List.ne_nil_of_mem seen)
  have spoken := recounts.mem_told seen (holder ▸ held)
  rw [observations_eq, reports_eq]
  exact ⟨_, last, recounts.told_last last (List.ne_nil_of_mem spoken)⟩

theorem learnsOfItsEnd_iff_of_led (run : Contest.empty.play moves = some c)
    (present : c.members.get? id = some m) (named : m.run.candidate.identity ≠ "")
    (led : .published id .leading ∈ c.log) :
    c.LearnsOfItsEnd id m.run.candidate.identity ↔
      ¬ c.ReplacedUnseen id m.run.candidate.resource m.run.candidate.identity ∧
      ¬ c.HoldsOn id m.run.candidate.resource m.run.candidate.identity := by
  have keeps := (chronicle_of_play run).keeps
  have recounts := recounts_of_play run present
  obtain ⟨e, last, told⟩ := reports_of_led run present named led
  constructor
  · rintro ⟨holder, reported, other⟩
    cases Option.some.inj (told.symm.trans reported)
    have unnamed : ∀ x : Record, (c.observations id).getLast? = some x.entry →
        ¬ x.Names m.run.candidate.identity := by
      intro x seen names
      cases Option.some.inj (last.symm.trans seen)
      exact other ((Lease.isHeldBy_iff _ _).mp names).1
    constructor
    · rintro ⟨own, -, seen, names, -⟩
      exact unnamed own seen names
    · rintro ⟨own, -, seen, names⟩
      exact unnamed own seen names
  · rintro ⟨seen, gone⟩
    refine ⟨_, told, fun holder => ?_⟩
    obtain ⟨x, member, rfl, final | ⟨next, after, version, other⟩⟩ := recounts.last_or_replaced
      (keeps.numbered m.run.candidate.resource) (observations_eq c id ▸ last)
    · refine gone ⟨x, ?_, last, names_of_holder holder named⟩
      rw [keeps.current, final, Option.map_some]
    · exact seen ⟨x, member, last, names_of_holder holder named, next, after, version, other⟩

/-- A run that has led and has come to an outcome has learned that it leads no more, unless somebody
else replaced the lease that it saw last under its name; one that has broken down, unless it leaves
that lease behind too. -/
theorem learnsOfItsEnd_iff (run : Contest.empty.play moves = some c)
    (present : c.members.get? id = some m) (named : m.run.candidate.identity ≠ "")
    (led : .published id .leading ∈ c.log) :
    (∀ outcome, m.run.stage = .ended outcome →
      (c.LearnsOfItsEnd id m.run.candidate.identity ↔
        ¬ c.ReplacedUnseen id m.run.candidate.resource m.run.candidate.identity)) ∧
    (m.run.stage = .broken →
      (c.LearnsOfItsEnd id m.run.candidate.identity ↔
        ¬ c.ReplacedUnseen id m.run.candidate.resource m.run.candidate.identity ∧
        ¬ c.HoldsOn id m.run.candidate.resource m.run.candidate.identity)) := by
  have learns := learnsOfItsEnd_iff_of_led run present named led
  refine ⟨fun outcome ended => ?_, fun _ => learns⟩
  rw [learns]
  refine and_iff_left ?_
  -- The lease under its name would be its own, and it has parted with that.
  rintro ⟨own, current, seen, names⟩
  have keeps := (chronicle_of_play run).keeps
  have settles := settles_of_play run present named
  rw [keeps.current] at current
  obtain ⟨x, final, entry⟩ := Option.map_eq_some_iff.mp current
  have remembered : m.run.sighting.seen = some x.entry := by
    rw [(recounts_of_play run present).seen, ← observations_eq, seen, entry]
  have claimed : x.Names m.run.candidate.identity := by
    rw [Record.Names, entry]
    exact names
  have author := settles.own (by rw [ended]; rfl) x final remembered claimed
  exact settles.parted (by rw [ended]; rfl) x final ⟨author, claimed⟩

/-- A run leads, and its work ends; between its last renewal and the release somebody else takes the
lease over, and the release is refused. -/
def replacedBeforeRelease : List Move :=
  [.start 1 ⟨"a", "test/lease", .ofSeconds 10, .ofSeconds 2⟩, .act 1 (.ofUnix 0 0),
    .act 1 (.ofUnix 0 0), .call 1, .call 1, .act 1 (.ofUnix 0 0), .act 1 (.ofUnix 0 0),
    .pass (.ofSeconds 2), .act 1 (.ofUnix 2 0), .call 1, .call 1, .pass (.ofSeconds 1),
    .foreign "test/lease" (.update 2 ⟨"x", .ofSeconds 10, .ofUnix 3 0, .ofUnix 3 0, 1⟩),
    .finish 1 .done, .act 1 (.ofUnix 3 0), .act 1 (.ofUnix 3 0), .call 1, .act 1 (.ofUnix 3 0),
    .act 1 (.ofUnix 3 0)]

theorem played_replacedBeforeRelease :
    ∃ c m, Contest.empty.play replacedBeforeRelease = some c ∧ c.members.get? 1 = some m ∧
      m.run.candidate.identity = "a" ∧ .published 1 .leading ∈ c.log ∧
      m.run.stage = .ended (.lost "test/lease") ∧ c.reports 1 = ["a"] := by
  have played : ((Contest.empty.play replacedBeforeRelease).bind fun c =>
      (c.members.get? 1).map fun m => (m.run.candidate.identity,
        decide (.published 1 .leading ∈ c.log), m.run.stage, c.reports 1)) =
      some ("a", true, .ended (.lost "test/lease"), ["a"]) := by
    decide +kernel
  obtain ⟨c, run, rest⟩ := Option.bind_eq_some_iff.mp played
  obtain ⟨m, present, found⟩ := Option.map_eq_some_iff.mp rest
  simp only [Prod.mk.injEq, decide_eq_true_eq] at found
  exact ⟨c, m, run, present, found.1, found.2.1, found.2.2.1, found.2.2.2⟩

theorem learnsOfItsEnd_iff_replacedBeforeRelease :
    ∃ c m, Contest.empty.play replacedBeforeRelease = some c ∧ c.members.get? 1 = some m ∧
      m.run.candidate.identity ≠ "" ∧ .published 1 .leading ∈ c.log ∧
      (∃ outcome, m.run.stage = .ended outcome) ∧
      c.ReplacedUnseen 1 m.run.candidate.resource m.run.candidate.identity := by
  obtain ⟨c, m, run, present, identity, led, ended, reports⟩ := played_replacedBeforeRelease
  have named : m.run.candidate.identity ≠ "" := by
    rw [identity]
    decide
  refine ⟨c, m, run, present, named, led, ⟨_, ended⟩, ?_⟩
  have learns := (learnsOfItsEnd_iff run present named led).1 _ ended
  refine not_not.mp (mt learns.mpr ?_)
  rintro ⟨holder, last, other⟩
  rw [reports] at last
  exact other ((Option.some.inj last).symm.trans identity.symm)

theorem replacedBeforeRelease_not_learnsOfItsEnd :
    ¬ ∀ (moves : List Move) (c : Contest) (id : Nat) (m : Member) (outcome : Outcome),
      Contest.empty.play moves = some c → c.members.get? id = some m →
      m.run.candidate.identity ≠ "" → .published id .leading ∈ c.log →
      m.run.stage = .ended outcome → c.LearnsOfItsEnd id m.run.candidate.identity := by
  intro claimed
  obtain ⟨c, m, run, present, identity, led, ended, reports⟩ := played_replacedBeforeRelease
  have named : m.run.candidate.identity ≠ "" := by
    rw [identity]
    decide
  obtain ⟨holder, last, other⟩ := claimed _ c 1 m _ run present named led ended
  rw [reports] at last
  exact other ((Option.some.inj last).symm.trans identity.symm)

end Contest

end LeaderLease
