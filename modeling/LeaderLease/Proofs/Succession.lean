import LeaderLease.Proofs.Passage
import LeaderLease.Proofs.Replacement

/-!
# The terms of a lease

What runs store under a key, one lease after the other, splits into terms: an acquisition, renewals
by the holder that acquired, and a release at the end or none. `Lease.Follows` says what may be
stored in the place of a lease; that the terms count up from nought follows from it alone.
`splits_into_terms` proves it for any moves in any order, as long as only runs store under the key.
-/

set_option autoImplicit false

namespace LeaderLease

/-- One term of a lease. -/
structure LeaseTerm where
  acquisition : Lease
  renewals : List Lease
  release : Option Lease

namespace LeaseTerm

def leases (t : LeaseTerm) : List Lease := t.acquisition :: (t.renewals ++ t.release.toList)

/-- A term with a count: one holder acquires the lease and renews it, and whoever hands it back
leaves it to nobody for a second. -/
structure WellFormed (t : LeaseTerm) (count : Nat) : Prop where
  named : t.acquisition.holder ≠ ""
  new : t.acquisition.acquired = t.acquisition.renewed
  counted : t.acquisition.transitions = count
  renewed : ∀ l ∈ t.renewals, l.holder = t.acquisition.holder ∧
    l.acquired = t.acquisition.acquired ∧ l.transitions = count
  released : ∀ l, t.release = some l →
    l.holder = "" ∧ l.duration = .ofSeconds 1 ∧ l.transitions = count

end LeaseTerm

/-- The leases are those of the terms, one term after the other, and the terms are counted from
nought. -/
structure SplitsInto (leases : List Lease) (terms : List LeaseTerm) : Prop where
  leases : leases = terms.flatMap LeaseTerm.leases
  wellFormed : ∀ (n : Nat) (t : LeaseTerm), terms[n]? = some t → t.WellFormed n

/-- What may be stored in the place of a lease, or where there is none. -/
inductive Lease.Follows (l : Lease) : Option Lease → Prop where
  | first (named : l.holder ≠ "") (new : l.acquired = l.renewed) (counted : l.transitions = 0) :
      Follows l none
  | renewal {x : Lease} (named : x.holder ≠ "") (holder : l.holder = x.holder)
      (acquired : l.acquired = x.acquired) (counted : l.transitions = x.transitions) :
      Follows l (some x)
  | takeover {x : Lease} (named : l.holder ≠ "") (new : l.acquired = l.renewed)
      (counted : l.transitions = x.transitions + 1) : Follows l (some x)
  | release {x : Lease} (named : x.holder ≠ "") (nobody : l.holder = "")
      (second : l.duration = .ofSeconds 1) (counted : l.transitions = x.transitions) :
      Follows l (some x)

/-! ## Counting terms -/

namespace LeaseTerm

variable {t : LeaseTerm} {count : Nat} {l x : Lease}

theorem getLast?_leases (t : LeaseTerm) (before : List Lease) :
    (before ++ t.leases).getLast? = t.leases.getLast? := by
  rw [List.getLast?_append, leases, List.getLast?_cons]
  rfl

theorem WellFormed.transitions (wellFormed : t.WellFormed count) (member : x ∈ t.leases) :
    x.transitions = count := by
  rcases List.mem_cons.mp member with rfl | member
  · exact wellFormed.counted
  rcases List.mem_append.mp member with member | member
  · exact (wellFormed.renewed x member).2.2
  · exact (wellFormed.released x (Option.mem_toList.mp member)).2.2

/-- A lease of a term that names somebody is its acquisition or a renewal of it. -/
theorem WellFormed.holds (wellFormed : t.WellFormed count) (member : x ∈ t.leases)
    (named : x.holder ≠ "") :
    x.holder = t.acquisition.holder ∧ x.acquired = t.acquisition.acquired := by
  rcases List.mem_cons.mp member with rfl | member
  · exact ⟨rfl, rfl⟩
  rcases List.mem_append.mp member with member | member
  · obtain ⟨holder, acquired, -⟩ := wellFormed.renewed x member
    exact ⟨holder, acquired⟩
  · exact absurd (wellFormed.released x (Option.mem_toList.mp member)).1 named

/-- A term whose last lease names somebody has not been released. -/
theorem WellFormed.open_of_last (wellFormed : t.WellFormed count)
    (last : t.leases.getLast? = some x) (named : x.holder ≠ "") : t.release = none := by
  cases released : t.release with
  | none => rfl
  | some l =>
      have atEnd : t.leases = (t.acquisition :: t.renewals) ++ [l] := by simp [leases, released]
      rw [atEnd, List.getLast?_concat] at last
      rw [Option.some.inj last] at released
      exact absurd (wellFormed.released x released).1 named

/-- The term goes on with a renewal. -/
theorem WellFormed.renew (wellFormed : t.WellFormed count)
    (holder : l.holder = t.acquisition.holder) (acquired : l.acquired = t.acquisition.acquired)
    (counted : l.transitions = count) :
    (⟨t.acquisition, t.renewals ++ [l], none⟩ : LeaseTerm).WellFormed count where
  named := wellFormed.named
  new := wellFormed.new
  counted := wellFormed.counted
  renewed := by
    intro y member
    rcases List.mem_append.mp member with member | member
    · exact wellFormed.renewed y member
    · cases List.mem_singleton.mp member
      exact ⟨holder, acquired, counted⟩
  released := nofun

theorem WellFormed.handBack (wellFormed : t.WellFormed count) (nobody : l.holder = "")
    (second : l.duration = .ofSeconds 1) (counted : l.transitions = count) :
    (⟨t.acquisition, t.renewals, some l⟩ : LeaseTerm).WellFormed count where
  named := wellFormed.named
  new := wellFormed.new
  counted := wellFormed.counted
  renewed := wellFormed.renewed
  released := by
    intro y same
    cases Option.some.inj same
    exact ⟨nobody, second, counted⟩

theorem wellFormed_acquired (named : l.holder ≠ "") (new : l.acquired = l.renewed)
    (counted : l.transitions = count) : (⟨l, [], none⟩ : LeaseTerm).WellFormed count where
  named := named
  new := new
  counted := counted
  renewed := nofun
  released := nofun

end LeaseTerm

namespace SplitsInto

variable {leases : List Lease} {terms : List LeaseTerm} {t : LeaseTerm} {l : Lease}

theorem nil : SplitsInto [] [] := ⟨rfl, by simp⟩

theorem concat (splits : SplitsInto leases terms) (wellFormed : t.WellFormed terms.length) :
    SplitsInto (leases ++ t.leases) (terms ++ [t]) where
  leases := by rw [List.flatMap_append, List.flatMap_singleton, splits.leases]
  wellFormed := by
    intro n u atIndex
    rcases Nat.lt_trichotomy n terms.length with inside | rfl | outside
    · rw [List.getElem?_append_left inside] at atIndex
      exact splits.wellFormed n u atIndex
    · rw [List.getElem?_concat_length] at atIndex
      cases Option.some.inj atIndex
      exact wellFormed
    · rw [List.getElem?_eq_none] at atIndex
      · cases atIndex
      · rw [List.length_append, List.length_singleton]
        exact outside

theorem init (splits : SplitsInto leases (terms ++ [t])) :
    ∃ before, leases = before ++ t.leases ∧ SplitsInto before terms ∧
      t.WellFormed terms.length := by
  refine ⟨terms.flatMap LeaseTerm.leases, ?_, ⟨rfl, fun n u atIndex => ?_⟩, ?_⟩
  · rw [splits.leases, List.flatMap_append, List.flatMap_singleton]
  · obtain ⟨inside, -⟩ := List.getElem?_eq_some_iff.mp atIndex
    exact splits.wellFormed n u (by rw [List.getElem?_append_left inside, atIndex])
  · exact splits.wellFormed _ t List.getElem?_concat_length

/-- What follows the last lease goes on with the last term, or begins the next one. -/
theorem extend (splits : SplitsInto leases terms) (follows : l.Follows leases.getLast?) :
    ∃ terms', SplitsInto (leases ++ [l]) terms' := by
  rcases List.eq_nil_or_concat terms with rfl | ⟨past, t, rfl⟩
  · have none : leases = [] := splits.leases
    subst none
    cases follows with
    | first named new counted =>
        have begun := nil.concat (t := ⟨l, [], .none⟩) (LeaseTerm.wellFormed_acquired named new counted)
        exact ⟨_, begun⟩
  rw [List.concat_eq_append] at splits
  obtain ⟨before, rfl, rest, wellFormed⟩ := splits.init
  rw [t.getLast?_leases] at follows
  generalize last : t.leases.getLast? = final at follows
  cases follows with
  | first =>
      rw [List.getLast?_eq_none_iff] at last
      cases last
  | @takeover x named new counted =>
      rw [wellFormed.transitions (List.mem_of_getLast? last)] at counted
      have length : past.length + 1 = (past ++ [t]).length := by simp
      have begun := splits.concat (t := ⟨l, [], none⟩)
        (LeaseTerm.wellFormed_acquired named new (counted.trans length))
      exact ⟨_, begun⟩
  | @renewal x named holder acquired counted =>
      have member := List.mem_of_getLast? last
      -- The last term is still open, and grows by a renewal.
      have still := wellFormed.open_of_last last named
      obtain ⟨sameHolder, sameAcquired⟩ := wellFormed.holds member named
      have renewed := rest.concat (wellFormed.renew (holder.trans sameHolder)
        (acquired.trans sameAcquired) (counted.trans (wellFormed.transitions member)))
      have longer : before ++ t.leases ++ [l] =
          before ++ LeaseTerm.leases ⟨t.acquisition, t.renewals ++ [l], none⟩ := by
        simp [LeaseTerm.leases, still]
      exact ⟨_, longer ▸ renewed⟩
  | @release x named nobody second counted =>
      have still := wellFormed.open_of_last last named
      have released := rest.concat (wellFormed.handBack nobody second
        (counted.trans (wellFormed.transitions (List.mem_of_getLast? last))))
      have longer : before ++ t.leases ++ [l] =
          before ++ LeaseTerm.leases ⟨t.acquisition, t.renewals, some l⟩ := by
        simp [LeaseTerm.leases, still]
      exact ⟨_, longer ▸ released⟩

end SplitsInto

/-! ## What a run stores follows what it has seen -/

namespace Run

/-- A lease that a run is about to take over counts one term more than the one that it has seen. -/
def Counts (r : Run) : Prop :=
  match r.stage with
  | .writing _ (.update _ l) => ∃ e, r.sighting.seen = some e ∧
      (e.lease.isHeldBy r.candidate.identity = false → l.transitions = e.lease.transitions + 1)
  | _ => True

theorem counts_of_update {r : Run} {goal : Goal} {version : Nat} {l : Lease} (counts : r.Counts)
    (stage : r.stage = .writing goal (.update version l)) :
    ∃ e, r.sighting.seen = some e ∧
      (e.lease.isHeldBy r.candidate.identity = false →
        l.transitions = e.lease.transitions + 1) := by
  unfold Counts at counts
  rwa [stage] at counts

theorem counts_failed (r : Run) (now : Instant) (goal : Goal) : (r.failed now goal).Counts := by
  rcases failed_cases r now goal with same | ⟨-, same | same⟩ <;> rw [same] <;> trivial

theorem counts_act {r next : Run} {v : View} {effects : List Effect}
    (acts : r.Acts v next effects) : next.Counts := by
  cases acts with
  | finish | conclude =>
      rcases handBack_cases r v.wall _ with same | ⟨e, -, -, same⟩ <;> rw [same] <;> trivial
  | _ => trivial

theorem counts_read {r next : Run} {now : Instant} {goal : Goal} {wall : Timestamp}
    {answer : ReadAnswer} {effects : List Effect}
    (reads : r.Reads now goal wall answer next effects) : next.Counts := by
  cases reads with
  | unreadable | held => exact counts_failed _ now goal
  | absent | overflow => trivial
  | own e mine =>
      refine ⟨e, rfl, fun notMine => ?_⟩
      cases mine.symm.trans notMine
  | @free e count notMine spent following =>
      exact ⟨e, rfl, fun _ => Lease.eq_of_nextTransitions? following⟩

theorem counts_write {r next : Run} {now : Instant} {answer : WriteAnswer} {effects : List Effect}
    (writes : r.Writes now answer next effects) : next.Counts := by
  cases writes with
  | @succeeded goal => cases goal <;> trivial
  | failed => exact counts_failed r now _
  | released | kept | exhausted => trivial

theorem counts_dealing {id : Nat} {r next : Run} {records after : List Record}
    (dealing : Dealing id r records next after) (counts : r.Counts) : next.Counts := by
  cases dealing with
  | idle | other => exact counts
  | act acts => exact counts_act acts
  | read stage reads => exact counts_read reads
  | stored called writes | refused called writes => exact counts_write writes

end Run

namespace Contest

theorem counts_of_play {moves : List Move} {c : Contest} {id : Nat} {m : Member}
    (run : Contest.empty.play moves = some c) (present : c.members.get? id = some m) :
    m.run.Counts := by
  have deals : c.Deals fun _ r _ => r.Counts :=
    dealings_of_play (fun _ _ dealing counts => Run.counts_dealing dealing counts)
      (fun _ _ _ _ _ => trivial) run
  exact deals.deals id m present

/-- What a run with a name stores follows the last record. -/
theorem follows_of_write {c : Contest} {id : Nat} {m : Member} {w : Write} {e : Entry}
    {store : MemoryStore} (chronicle : c.Chronicle) (counts : m.run.Counts)
    (present : c.members.get? id = some m) (named : m.run.candidate.identity ≠ "")
    (called : m.run.call? = some (.write w))
    (wrote : c.store.write m.run.candidate.resource w = (.ok e, store)) :
    e.lease.Follows ((c.store.get? m.run.candidate.resource).map (·.lease)) := by
  have recalls := chronicle.recalls id m present
  rcases Run.stage_of_write called with ⟨goal, stage⟩ | ⟨verdict, version, l, stage, rfl⟩
  · cases w with
    | create l =>
        obtain ⟨-, lease, ⟨absent, -, -⟩ | ⟨current, held, -, other⟩⟩ := MemoryStore.write_ok wrote
        · obtain ⟨wall, rfl⟩ := Run.plans_of_create recalls.plans stage
          rw [absent, lease]
          exact .first named rfl rfl
        · cases other
    | update version l =>
        obtain ⟨seen, wall, saw, rfl, plan⟩ := Run.plans_of_update recalls.plans stage
        obtain ⟨current, -, lease⟩ := stored_of_seen chronicle recalls saw wrote
        rw [current, lease]
        rcases plan with ⟨mine, rfl⟩ | ⟨notMine, count, rfl⟩
        · have holder := ((Lease.isHeldBy_iff _ _).mp mine).1
          exact .renewal (holder ▸ named) holder.symm rfl rfl
        · obtain ⟨seen', saw', counted⟩ := Run.counts_of_update counts stage
          cases Option.some.inj (saw.symm.trans saw')
          exact .takeover named rfl (counted notMine)
  · obtain ⟨seen, wall, saw, rfl, mine, rfl⟩ := Run.plans_of_releasing recalls.plans stage
    obtain ⟨current, -, lease⟩ := stored_of_seen chronicle recalls saw wrote
    have holder := ((Lease.isHeldBy_iff _ _).mp mine).1
    rw [current, lease]
    exact .release (holder ▸ named) rfl rfl rfl

/-- The leases that were stored under a key, the latest last. -/
def leases (c : Contest) (key : String) : List Lease :=
  (c.log.records key).map (·.entry.lease)

theorem getLast?_leases {c : Contest} (chronicle : c.Chronicle) (key : String) :
    (c.leases key).getLast? = (c.store.get? key).map (·.lease) := by
  rw [chronicle.keeps.current, leases, List.getLast?_map, Option.map_map]
  rfl

/-- What runs with names store under a key splits into terms, as long as nobody else stores there. -/
theorem splits_into_terms {key : String} {moves : List Move} {c : Contest}
    (run : Contest.empty.play moves = some c) (alone : ∀ w, .foreign key w ∉ moves)
    (named : ∀ id candidate, .start id candidate ∈ moves → candidate.resource = key →
      candidate.identity ≠ "") :
    ∃ terms, SplitsInto (c.leases key) terms := by
  revert alone named
  refine moves_induction (P := fun moves c => (∀ w, .foreign key w ∉ moves) →
    (∀ id candidate, .start id candidate ∈ moves → candidate.resource = key →
      candidate.identity ≠ "") → ∃ terms, SplitsInto (c.leases key) terms)
    (fun _ _ => ⟨[], .nil⟩) ?_ run
  intro moves c next move reached ih step alone named
  obtain ⟨terms, splits⟩ := ih (fun w member => alone w (List.mem_append_left _ member))
    (fun id candidate member => named id candidate (List.mem_append_left _ member))
  cases growth_of_step step key with
  | none same =>
      refine ⟨terms, ?_⟩
      rw [leases, same]
      exact splits
  | foreign => exact absurd (List.mem_append_right _ (List.mem_singleton_self _)) (alone _)
  | @own id m w e store present forKey called wrote grown =>
      subst forKey
      have chronicle := chronicle_of_play reached
      have begun := List.mem_append_left [.call id] (start_mem reached present)
      have follows := follows_of_write chronicle (counts_of_play reached present) present
        (named id _ begun rfl) called wrote
      rw [← getLast?_leases chronicle] at follows
      obtain ⟨terms', splits'⟩ := splits.extend follows
      refine ⟨terms', ?_⟩
      rw [leases, grown, List.map_append]
      exact splits'

/-- A run wins its lease, renews it and hands it back. Another one takes it and vanishes, comes
back under its name and renews it. -/
def passedOn : List Move :=
  [.start 1 ⟨"a", "test/lease", .ofSeconds 10, .ofSeconds 2⟩, .act 1 (.ofUnix 0 0),
    .act 1 (.ofUnix 0 0), .call 1, .call 1, .act 1 (.ofUnix 0 0), .act 1 (.ofUnix 0 0),
    .pass (.ofSeconds 2), .act 1 (.ofUnix 2 0), .call 1, .call 1, .finish 1 .done,
    .act 1 (.ofUnix 2 0), .act 1 (.ofUnix 2 0), .call 1,
    .start 2 ⟨"b", "test/lease", .ofSeconds 10, .ofSeconds 2⟩, .act 2 (.ofUnix 2 0),
    .act 2 (.ofUnix 2 0), .call 2, .call 2, .vanish 2,
    .start 3 ⟨"b", "test/lease", .ofSeconds 10, .ofSeconds 2⟩, .act 3 (.ofUnix 3 0),
    .act 3 (.ofUnix 3 0), .call 3, .call 3]

theorem splits_into_terms_passedOn :
    ∃ c terms, Contest.empty.play passedOn = some c ∧
      (∀ w, .foreign "test/lease" w ∉ passedOn) ∧
      (∀ id candidate, .start id candidate ∈ passedOn → candidate.resource = "test/lease" →
        candidate.identity ≠ "") ∧
      SplitsInto (c.leases "test/lease") terms ∧
      (c.leases "test/lease").map (fun l => (l.holder, l.transitions)) =
        [("a", 0), ("a", 0), ("", 0), ("b", 1), ("b", 1)] := by
  have played : (Contest.empty.play passedOn).map
      (fun c => (c.leases "test/lease").map fun l => (l.holder, l.transitions)) =
      some [("a", 0), ("a", 0), ("", 0), ("b", 1), ("b", 1)] := by
    decide +kernel
  obtain ⟨c, run, stored⟩ := Option.map_eq_some_iff.mp played
  have alone : ∀ w, .foreign "test/lease" w ∉ passedOn := by simp [passedOn]
  have named : ∀ id candidate, .start id candidate ∈ passedOn →
      candidate.resource = "test/lease" → candidate.identity ≠ "" := by
    simp only [passedOn, List.mem_cons, Move.start.injEq, reduceCtorEq, false_or, or_false,
      List.not_mem_nil]
    rintro id candidate (⟨-, rfl⟩ | ⟨-, rfl⟩ | ⟨-, rfl⟩) - <;> decide
  obtain ⟨terms, splits⟩ := splits_into_terms run alone named
  exact ⟨c, terms, run, alone, named, splits, stored⟩

end Contest

end LeaderLease
