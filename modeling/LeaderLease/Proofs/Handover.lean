import LeaderLease.Proofs.Dealings
import LeaderLease.Proofs.Standing
import LeaderLease.Proofs.Term
import Mathlib.Data.Set.Finite.Lemmas

/-!
# The end of a lease

A run that has ended leaves no lease under its name behind. Whenever the last record of its key is
one that it stored under its name, that record is what it has seen last (`Run.Settles.recalled`):
so it finds the record again and hands it back, or somebody else has replaced it, and then the run
is refused. `handedBack_or_replaced` proves it for every way in which a run ends, and after any
moves in any order.
-/

set_option autoImplicit false

namespace LeaderLease

/-- The member stored the record, and it names the member's identity. -/
def Record.Claims (x : Record) (id : Nat) (identity : String) : Prop :=
  x.author = some id ∧ x.Names identity

/-- The member handed the lease back by the record: nobody holds it, for one second. -/
def Record.Returns (x : Record) (id : Nat) : Prop :=
  x.author = some id ∧ x.entry.lease.holder = "" ∧ x.entry.lease.duration = .ofSeconds 1

namespace Stage

/-- The lease was not won yet. -/
def acquires : Stage → Bool
  | .fresh => true
  | .waiting goal | .reading goal _ | .writing goal _ => !goal.isRenewal
  | _ => false

/-- The lease was handed back or lost, or it was never won; the run stores nothing more. -/
def hasParted : Stage → Bool
  | .relieving .lost | .aborting | .retiring _ | .closing _ | .announcing | .ended _ => true
  | _ => false

/-- An attempt has been read for and not yet written, or the run has given up: what the run saw last
may be somebody else's record under its own name. -/
def isUnsettled : Stage → Bool
  | .writing _ _ | .broken => true
  | _ => false

theorem isUnsettled_of_hasParted {stage : Stage} (parted : stage.hasParted = true) :
    stage.isUnsettled = false := by
  cases stage with
  | writing goal w | broken => cases parted
  | _ => rfl

end Stage

/-- How a run stands to what it stored. -/
structure Run.Settles (id : Nat) (r : Run) (records : List Record) : Prop where
  unwritten : r.stage.acquires = true → ∀ x ∈ records, x.author ≠ some id
  won : r.stage.keepsLease = true → ∃ x ∈ records, x.Claims id r.candidate.identity
  /-- A lease is created only by a run that has seen none. -/
  creates : ∀ goal l, r.stage = .writing goal (.create l) → r.sighting.seen = none
  recalled : ∀ x, records.getLast? = some x → x.Claims id r.candidate.identity →
    r.sighting.seen = some x.entry
  /-- Between attempts the run has seen nobody else's record under its name, unless it has been
  replaced. -/
  own : r.stage.isUnsettled = false → ∀ x, records.getLast? = some x →
    r.sighting.seen = some x.entry → x.Names r.candidate.identity → x.author = some id
  parted : r.stage.hasParted = true →
    ∀ x, records.getLast? = some x → ¬ x.Claims id r.candidate.identity
  /-- What a run stores without its name replaces what it stored under its name. -/
  returns : ∀ y ∈ records, y.author = some id → ¬ y.Names r.candidate.identity →
    y.Returns id ∧ ∃ x ∈ records, x.Claims id r.candidate.identity ∧
      x.entry.version + 1 = y.entry.version

namespace Run

theorem handBack_of_mine {r : Run} {e : Entry} (wall : Timestamp) (verdict : Verdict)
    (seen : r.sighting.seen = some e) (mine : e.lease.isHeldBy r.candidate.identity = true) :
    (r.handBack wall verdict).stage =
      .releasing verdict e.version (Candidate.releasedLease wall e.lease.transitions) := by
  simp only [handBack, seen, mine, if_true, goTo]

theorem handBack_acquires (r : Run) (wall : Timestamp) (verdict : Verdict) :
    (r.handBack wall verdict).stage.acquires = false := by
  rcases handBack_cases r wall verdict with same | ⟨e, -, -, same⟩ <;> rw [same] <;> rfl

theorem handBack_isUnsettled (r : Run) (wall : Timestamp) (verdict : Verdict) :
    (r.handBack wall verdict).stage.isUnsettled = false := by
  rcases handBack_cases r wall verdict with same | ⟨e, -, -, same⟩ <;> rw [same] <;> rfl

theorem failed_acquires (r : Run) (now : Instant) (goal : Goal) :
    (r.failed now goal).stage.acquires = (Stage.waiting goal).acquires := by
  rcases failed_cases r now goal with same | ⟨renewal, same | same⟩ <;> rw [same]
  · rfl
  all_goals simp only [Stage.acquires, goTo, renewal, Bool.not_true]

theorem failed_keepsLease (r : Run) (now : Instant) (goal : Goal) :
    (r.failed now goal).stage.keepsLease = (Stage.waiting goal).keepsLease := by
  rcases failed_cases r now goal with same | ⟨renewal, same | same⟩ <;> rw [same]
  · rfl
  all_goals exact renewal.symm

theorem failed_isUnsettled (r : Run) (now : Instant) (goal : Goal) :
    (r.failed now goal).stage.isUnsettled = false := by
  rcases failed_cases r now goal with same | ⟨-, same | same⟩ <;> rw [same] <;> rfl

namespace Settles

variable {id : Nat} {r next : Run} {records : List Record}

theorem start (candidate : Candidate) (now : Instant)
    (absent : ∀ x ∈ records, x.author ≠ some id) :
    (Run.start candidate now).Settles id records where
  unwritten := fun _ => absent
  won := by
    intro keeps
    cases keeps
  creates := by
    intro goal l writing
    cases writing
  recalled := by
    intro x last claims
    exact absurd claims.1 (absent x (List.mem_of_getLast? last))
  own := by
    intro _ x _ seen
    cases seen
  parted := by
    intro parted
    cases parted
  returns := by
    intro y member author
    exact absurd author (absent y member)

/-- A step that leaves the records and what the run has seen as they are. -/
theorem stay (settles : r.Settles id records) (candidate : next.candidate = r.candidate)
    (sighting : next.sighting = r.sighting)
    (acquires : next.stage.acquires = true → r.stage.acquires = true)
    (keeps : next.stage.keepsLease = true → r.stage.keepsLease = true)
    (idle : ∀ goal w, next.stage ≠ .writing goal w)
    (own : next.stage.isUnsettled = false → ∀ x, records.getLast? = some x →
      r.sighting.seen = some x.entry → x.Names r.candidate.identity → x.author = some id)
    (parted : next.stage.hasParted = true →
      ∀ x, records.getLast? = some x → ¬ x.Claims id r.candidate.identity) :
    next.Settles id records where
  unwritten := fun acquiring => settles.unwritten (acquires acquiring)
  won := by
    intro keeping
    rw [candidate]
    exact settles.won (keeps keeping)
  creates := by
    intro goal l writing
    exact absurd writing (idle goal _)
  recalled := by
    rw [candidate, sighting]
    exact settles.recalled
  own := by
    rw [candidate, sighting]
    exact own
  parted := by
    rw [candidate]
    exact parted
  returns := by
    rw [candidate]
    exact settles.returns

theorem goOn (settles : r.Settles id records) (candidate : next.candidate = r.candidate)
    (sighting : next.sighting = r.sighting)
    (acquires : next.stage.acquires = true → r.stage.acquires = true)
    (keeps : next.stage.keepsLease = true → r.stage.keepsLease = true)
    (idle : ∀ goal w, next.stage ≠ .writing goal w)
    (settled : next.stage.isUnsettled = false → r.stage.isUnsettled = false)
    (parted : next.stage.hasParted = true →
      ∀ x, records.getLast? = some x → ¬ x.Claims id r.candidate.identity) :
    next.Settles id records :=
  settles.stay candidate sighting acquires keeps idle
    (fun settledNow => settles.own (settled settledNow)) parted

/-- What the run has seen last was replaced by somebody else. -/
theorem goAway (settles : r.Settles id records) (candidate : next.candidate = r.candidate)
    (sighting : next.sighting = r.sighting)
    (acquires : next.stage.acquires = true → r.stage.acquires = true)
    (keeps : next.stage.keepsLease = true → r.stage.keepsLease = true)
    (idle : ∀ goal w, next.stage ≠ .writing goal w)
    (replaced : ∀ x, records.getLast? = some x → r.sighting.seen ≠ some x.entry) :
    next.Settles id records := by
  refine settles.stay candidate sighting acquires keeps idle ?_ ?_
  · intro _ x last seen
    exact absurd seen (replaced x last)
  · intro _ x last claims
    exact replaced x last (settles.recalled x last claims)

theorem handBack_parted (settles : r.Settles id records) (wall : Timestamp) (verdict : Verdict)
    (partedNow : (r.handBack wall verdict).stage.hasParted = true) :
    ∀ x, records.getLast? = some x → ¬ x.Claims id r.candidate.identity := by
  intro x last claims
  -- A record of its own is what it has seen, and it would be handing that back.
  have seen := settles.recalled x last claims
  rw [handBack_of_mine wall verdict seen claims.2] at partedNow
  cases partedNow

theorem handBack_idle (r : Run) (wall : Timestamp) (verdict : Verdict) :
    ∀ goal w, (r.handBack wall verdict).stage ≠ .writing goal w := by
  intro goal w writing
  have settled := handBack_isUnsettled r wall verdict
  rw [writing] at settled
  cases settled

theorem handBack (settles : r.Settles id records) (wall : Timestamp) (verdict : Verdict)
    (keeps : r.stage.keepsLease = true) (settled : r.stage.isUnsettled = false) :
    (r.handBack wall verdict).Settles id records := by
  refine settles.goOn (handBack_candidate r wall verdict) (handBack_sighting r wall verdict) ?_
    (fun _ => keeps) (handBack_idle r wall verdict) (fun _ => settled)
    (settles.handBack_parted wall verdict)
  intro acquiring
  rw [handBack_acquires] at acquiring
  cases acquiring

theorem act {v : View} {effects : List Effect} (acts : r.Acts v next effects)
    (settles : r.Settles id records) : next.Settles id records := by
  have fresh : r.stage.acquires = true →
      ∀ x, records.getLast? = some x → ¬ x.Claims id r.candidate.identity := by
    intro acquiring x last claims
    exact settles.unwritten acquiring x (List.mem_of_getLast? last) claims.1
  cases acts with
  | finish stage | conclude stage =>
      have keeps : r.stage.keepsLease = true := by rw [stage]; rfl
      have settled : r.stage.isUnsettled = false := by rw [stage]; rfl
      exact settles.handBack _ _ keeps settled
  | @attempt goal stage =>
      refine settles.goOn rfl rfl ?_ ?_ (fun _ _ => nofun) (fun _ => by rw [stage]; rfl) nofun
      · intro acquiring
        rw [stage]
        simpa [Stage.acquires, goTo, Goal.isRenewal_ticked] using acquiring
      · intro keeping
        rw [stage]
        simpa [Stage.keepsLease, goTo, Goal.isRenewal_ticked] using keeping
  | withdraw stage =>
      refine settles.goOn rfl rfl nofun nofun (fun _ _ => nofun) (fun _ => by rw [stage]; rfl) ?_
      intro _
      exact fresh (by rw [stage]; rfl)
  | begin stage =>
      exact settles.goOn rfl rfl (fun _ => by rw [stage]; rfl) nofun (fun _ _ => nofun)
        (fun _ => by rw [stage]; rfl) nofun
  | refuse | installLate | lingerLate =>
      exact settles.goOn rfl rfl nofun nofun (fun _ _ => nofun) nofun nofun
  | heed stage | notice stage | proclaim stage | install stage | linger stage =>
      exact settles.goOn rfl rfl nofun (fun _ => by rw [stage]; rfl) (fun _ _ => nofun)
        (fun _ => by rw [stage]; rfl) nofun
  | dismiss stage =>
      exact settles.goOn rfl rfl nofun (fun _ => by rw [stage]; rfl) (fun _ _ => nofun)
        (fun _ => by rw [stage]; rfl) (fun _ => settles.parted (by rw [stage]; rfl))
  | abort stage | retire stage | closeFailed stage | closeAsked stage | closeLost stage
  | announce stage =>
      exact settles.goOn rfl rfl nofun nofun (fun _ _ => nofun) (fun _ => by rw [stage]; rfl)
        (fun _ => settles.parted (by rw [stage]; rfl))

/-! ### Answers of the store -/

/-- The run has looked at the last record. -/
theorem look {x : Record} (settles : r.Settles id records) (last : records.getLast? = some x)
    (candidate : next.candidate = r.candidate) (seen : next.sighting.seen = some x.entry)
    (acquires : next.stage.acquires = true → r.stage.acquires = true)
    (keeps : next.stage.keepsLease = true → r.stage.keepsLease = true)
    (updates : ∀ goal l, next.stage ≠ .writing goal (.create l))
    (unnamed : next.stage.isUnsettled = false → ¬ x.Names r.candidate.identity) :
    next.Settles id records where
  unwritten := fun acquiring => settles.unwritten (acquires acquiring)
  won := by
    intro keeping
    rw [candidate]
    exact settles.won (keeps keeping)
  creates := by
    intro goal l writing
    exact absurd writing (updates goal l)
  recalled := by
    intro y atEnd _
    cases Option.some.inj (last.symm.trans atEnd)
    exact seen
  own := by
    intro settled y atEnd _ names
    rw [candidate] at names
    cases Option.some.inj (last.symm.trans atEnd)
    exact absurd names (unnamed settled)
  parted := by
    intro parted y atEnd claims
    rw [candidate] at claims
    cases Option.some.inj (last.symm.trans atEnd)
    exact unnamed (Stage.isUnsettled_of_hasParted parted) claims.2
  returns := by
    rw [candidate]
    exact settles.returns

/-- Nothing was ever stored, and the run is about to create the lease. -/
theorem create {goal : Goal} {l : Lease} (settles : r.Settles id []) (recalls : r.Recalls [])
    (acquires : (Stage.waiting goal).acquires = true → r.stage.acquires = true)
    (keeps : (Stage.waiting goal).keepsLease = true → r.stage.keepsLease = true) :
    (r.goTo (.writing goal (.create l))).Settles id [] where
  unwritten := fun acquiring => settles.unwritten (acquires acquiring)
  won := fun keeping => settles.won (keeps keeping)
  creates := by
    intro _ _ _
    cases seen : r.sighting.seen with
    | none => exact seen
    | some e =>
        obtain ⟨x, member, -⟩ := recalls.seen e seen
        cases member
  recalled := settles.recalled
  own := nofun
  parted := nofun
  returns := settles.returns

theorem read {now : Instant} {goal : Goal} {wall : Timestamp} {effects : List Effect}
    (reads : r.Reads now goal wall (.ok (records.getLast?.map (·.entry))) next effects)
    (stage : r.stage = .reading goal wall) (recalls : r.Recalls records)
    (settles : r.Settles id records) : next.Settles id records := by
  have acquires : (Stage.waiting goal).acquires = true → r.stage.acquires = true := by
    intro acquiring
    rw [stage]
    exact acquiring
  have keeps : (Stage.waiting goal).keepsLease = true → r.stage.keepsLease = true := by
    intro keeping
    rw [stage]
    exact keeping
  cases last : records.getLast? with
  | none =>
      rw [List.getLast?_eq_none_iff] at last
      subst last
      cases reads with
      | absent => exact settles.create recalls acquires keeps
  | some x =>
      rw [last] at reads
      cases reads with
      | held _ other =>
          refine settles.look last (failed_candidate _ now goal) (by rw [failed_sighting]; rfl)
            ?_ ?_ ?_ ?_
          · rw [failed_acquires]
            exact acquires
          · rw [failed_keepsLease]
            exact keeps
          · intro goal' l writing
            have settled := failed_isUnsettled (r.observe now x.entry).1 now goal
            rw [writing] at settled
            cases settled
          · intro _ names
            exact other.2 ((Lease.isHeldBy_iff _ _).mp names).1
      | own | free =>
          exact settles.look last rfl rfl acquires keeps (fun _ _ => nofun) nofun
      | overflow => exact settles.look last rfl rfl nofun nofun (fun _ _ => nofun) nofun

/-- A run that hands back replaces what it stored under its name. -/
theorem replaced {verdict : Verdict} {version : Nat} {l : Lease} (settles : r.Settles id records)
    (recalls : r.Recalls records) (numbered : Numbered records)
    (stage : r.stage = .releasing verdict version l)
    (current : ∀ x ∈ records, x.entry.version = records.length → version = x.entry.version) :
    ∃ x ∈ records, x.Claims id r.candidate.identity ∧ x.entry.version = records.length := by
  obtain ⟨e, wall, seen, rfl, mine, -⟩ := plans_of_releasing recalls.plans stage
  obtain ⟨y, stored, sameEntry⟩ := recalls.seen e seen
  have some : records ≠ [] := List.ne_nil_of_mem stored
  have last := List.getLast?_eq_some_getLast some
  have atEnd := numbered.last_version last
  have member := List.mem_of_getLast? last
  have sameVersion := current _ member atEnd
  have entry := recalls.entry_of_version numbered seen member sameVersion.symm
  have names : (records.getLast some).Names r.candidate.identity := by
    rw [Record.Names, entry]
    exact mine
  have settled : r.stage.isUnsettled = false := by rw [stage]; rfl
  have author := settles.own settled _ last (by rw [seen, entry]) names
  exact ⟨_, member, ⟨author, names⟩, atEnd⟩

theorem last_concat {x z : Record} (last : (records ++ [z]).getLast? = some x) : x = z := by
  rw [List.getLast?_concat] at last
  exact (Option.some.inj last).symm

/-- One more record, which replaces the run's own if the run stored it without its name. -/
theorem returns_concat {z : Record} (settles : r.Settles id records)
    (added : z.author = some id → ¬ z.Names r.candidate.identity →
      z.Returns id ∧ ∃ x ∈ records, x.Claims id r.candidate.identity ∧
        x.entry.version + 1 = z.entry.version) :
    ∀ y ∈ records ++ [z], y.author = some id → ¬ y.Names r.candidate.identity →
      y.Returns id ∧ ∃ x ∈ records ++ [z], x.Claims id r.candidate.identity ∧
        x.entry.version + 1 = y.entry.version := by
  intro y member author unnamed
  have returned : y.Returns id ∧ ∃ x ∈ records, x.Claims id r.candidate.identity ∧
      x.entry.version + 1 = y.entry.version := by
    rcases List.mem_append.mp member with member | member
    · exact settles.returns y member author unnamed
    · cases List.mem_singleton.mp member
      exact added author unnamed
  obtain ⟨returned, x, before, own⟩ := returned
  exact ⟨returned, x, List.mem_append_left _ before, own⟩

/-- The run has stored a record under its name. -/
theorem succeeded {now : Instant} {goal : Goal} {w : Write} {e : Entry}
    (settles : r.Settles id records) (recalls : r.Recalls records)
    (named : r.candidate.identity ≠ "") (stage : r.stage = .writing goal w)
    (lease : e.lease = w.lease) :
    ((r.observe now e).1.succeeded now goal).Settles id (records ++ [⟨some id, now, e⟩]) := by
  have candidate := succeeded_candidate (r.observe now e).1 now goal
  have sighting := succeeded_sighting (r.observe now e).1 now goal
  have holder := holder_of_plans recalls.plans stage
  rw [← lease] at holder
  have claims : Record.Claims ⟨some id, now, e⟩ id r.candidate.identity :=
    ⟨rfl, names_of_holder holder named⟩
  exact {
    unwritten := by
      intro acquiring
      cases goal <;> cases acquiring
    won := by
      intro _
      rw [candidate]
      exact ⟨_, List.mem_append_right _ (List.mem_singleton_self _), claims⟩
    creates := by
      intro goal' l writing
      cases goal <;> cases writing
    recalled := by
      intro x last _
      cases last_concat last
      rw [sighting]
      rfl
    own := by
      intro _ x last _ _
      cases last_concat last
      rfl
    parted := by
      intro parted
      cases goal <;> cases parted
    returns := by
      rw [candidate]
      exact settles.returns_concat fun _ unnamed => absurd claims.2 unnamed }

/-- The run has stored a record that hands the lease back. -/
theorem released {now : Instant} {verdict : Verdict} {version : Nat} {l : Lease} {e : Entry}
    (settles : r.Settles id records) (recalls : r.Recalls records) (numbered : Numbered records)
    (stage : r.stage = .releasing verdict version l) (lease : e.lease = l)
    (follows : e.version = records.length + 1)
    (current : ∀ x ∈ records, x.entry.version = records.length → version = x.entry.version) :
    ((r.observe now e).1.goTo (.retiring verdict)).Settles id
      (records ++ [⟨some id, now, e⟩]) := by
  obtain ⟨own, stored, claims, atEnd⟩ := settles.replaced recalls numbered stage current
  obtain ⟨e', wall, -, -, -, handed⟩ := plans_of_releasing recalls.plans stage
  have returned : Record.Returns ⟨some id, now, e⟩ id := by
    refine ⟨rfl, ?_, ?_⟩ <;> rw [lease, handed] <;> rfl
  have unnamed : ¬ Record.Names ⟨some id, now, e⟩ r.candidate.identity := by
    intro names
    obtain ⟨holder, named⟩ := (Lease.isHeldBy_iff _ _).mp names
    exact named (holder.symm.trans returned.2.1)
  exact {
    unwritten := nofun
    won := nofun
    creates := fun _ _ => nofun
    recalled := by
      intro x last claimed
      cases last_concat last
      exact absurd claimed.2 unnamed
    own := by
      intro _ x last _ _
      cases last_concat last
      rfl
    parted := by
      intro _ x last claimed
      cases last_concat last
      exact unnamed claimed.2
    returns := settles.returns_concat fun _ _ =>
      ⟨returned, own, stored, claims, by rw [atEnd, follows]⟩ }

theorem stored {now : Instant} {w : Write} {e : Entry} {effects : List Effect}
    (writes : r.Writes now (.ok e) next effects) (settles : r.Settles id records)
    (recalls : r.Recalls records) (numbered : Numbered records)
    (named : r.candidate.identity ≠ "") (called : r.call? = some (.write w))
    (version : e.version = records.length + 1) (lease : e.lease = w.lease)
    (current : ∀ x ∈ records, x.entry.version = records.length →
      w = .update x.entry.version w.lease) :
    next.Settles id (records ++ [⟨some id, now, e⟩]) := by
  rcases stage_of_write called with ⟨goal, stage⟩ | ⟨verdict, v, l, stage, rfl⟩
  · cases writes with
    | succeeded _ attempt =>
        obtain ⟨rfl, rfl⟩ := Stage.writing.inj (stage.symm.trans attempt)
        exact settles.succeeded recalls named stage lease
    | released _ handed => cases stage.symm.trans handed
  · cases writes with
    | succeeded _ attempt => cases stage.symm.trans attempt
    | released _ handed =>
        obtain ⟨rfl, rfl, rfl⟩ := Stage.releasing.inj (stage.symm.trans handed)
        refine settles.released recalls numbered stage lease version fun x member atEnd => ?_
        exact (Write.update.inj (current x member atEnd)).1

/-- A run whose own record is the last is not refused. -/
theorem not_own_of_refused {w : Write} {err : StoreError} (settles : r.Settles id records)
    (recalls : r.Recalls records) (called : r.call? = some (.write w))
    (current : ∀ x l, records.getLast? = some x → w = .update x.entry.version l →
      err = .exhausted) (inRange : err ≠ .exhausted) :
    ∀ x, records.getLast? = some x → r.sighting.seen ≠ some x.entry := by
  intro x last seen
  rcases stage_of_write called with ⟨goal, stage⟩ | ⟨verdict, version, l, stage, rfl⟩
  · cases w with
    | create l => cases (settles.creates goal l stage).symm.trans seen
    | update version l =>
        obtain ⟨e, wall, saw, rfl, -⟩ := plans_of_update recalls.plans stage
        cases Option.some.inj (seen.symm.trans saw)
        exact inRange (current x l last rfl)
  · obtain ⟨e, wall, saw, rfl, -⟩ := plans_of_releasing recalls.plans stage
    cases Option.some.inj (seen.symm.trans saw)
    exact inRange (current x l last rfl)

theorem refused {now : Instant} {w : Write} {err : StoreError} {effects : List Effect}
    (writes : r.Writes now (.error err) next effects) (settles : r.Settles id records)
    (recalls : r.Recalls records) (called : r.call? = some (.write w))
    (current : ∀ x l, records.getLast? = some x → w = .update x.entry.version l →
      err = .exhausted) : next.Settles id records := by
  have replaced : err ≠ .exhausted →
      ∀ x, records.getLast? = some x → r.sighting.seen ≠ some x.entry :=
    settles.not_own_of_refused recalls called current
  cases writes with
  | @failed goal _ _ stage inRange =>
      refine settles.goAway (failed_candidate r now goal) (failed_sighting r now goal) ?_ ?_ ?_
        (replaced inRange)
      · intro acquiring
        rw [failed_acquires] at acquiring
        rw [stage]
        exact acquiring
      · intro keeping
        rw [failed_keepsLease] at keeping
        rw [stage]
        exact keeping
      · intro goal' w' writing
        have settled := failed_isUnsettled r now goal
        rw [writing] at settled
        cases settled
  | kept stage inRange =>
      exact settles.goAway rfl rfl nofun nofun (fun _ _ => nofun) (replaced inRange)
  | exhausted =>
      exact settles.goOn rfl rfl nofun nofun (fun _ _ => nofun) nofun nofun

theorem other {z : Record} (settles : r.Settles id records) (recalls : r.Recalls records)
    (numbered : Numbered records) (version : z.entry.version = records.length + 1)
    (author : z.author ≠ some id) : r.Settles id (records ++ [z]) where
  unwritten := by
    intro acquiring x member mine
    rcases List.mem_append.mp member with member | member
    · exact settles.unwritten acquiring x member mine
    · cases List.mem_singleton.mp member
      exact author mine
  won := by
    intro keeping
    obtain ⟨x, member, claims⟩ := settles.won keeping
    exact ⟨x, List.mem_append_left _ member, claims⟩
  creates := settles.creates
  recalled := by
    intro x last claims
    cases last_concat last
    exact absurd claims.1 author
  own := by
    intro _ x last seen _
    cases last_concat last
    -- Nobody has seen the record that was just stored.
    obtain ⟨y, member, same⟩ := recalls.seen _ seen
    have bound := numbered.version_le_length member
    rw [same, version] at bound
    omega
  parted := by
    intro _ x last claims
    cases last_concat last
    exact author claims.1
  returns := settles.returns_concat fun mine => absurd mine author

theorem dealing {r' : Run} {records' : List Record} (named : r.candidate.identity ≠ "")
    (recalls : r.Recalls records) (numbered : Numbered records)
    (dealing : Dealing id r records r' records') (settles : r.Settles id records) :
    r'.Settles id records' := by
  cases dealing with
  | idle => exact settles
  | act acts => exact .act acts settles
  | read stage reads => exact .read reads stage recalls settles
  | stored called writes version lease current =>
      exact .stored writes settles recalls numbered named called version lease current
  | refused called writes current => exact .refused writes settles recalls called current
  | other version author => exact settles.other recalls numbered version author

end Settles

end Run

namespace Contest

/-- Every run with a name settles. -/
theorem settles_of_play {moves : List Move} {c : Contest} {id : Nat} {m : Member}
    (run : Contest.empty.play moves = some c) (present : c.members.get? id = some m)
    (named : m.run.candidate.identity ≠ "") :
    m.run.Settles id (c.log.records m.run.candidate.resource) := by
  have deals : c.Deals fun id r records =>
      r.candidate.identity ≠ "" → r.Settles id records := by
    refine dealings_of_play (fun recalls numbered dealing settles named => ?_)
      (fun id candidate now records absent _ => .start candidate now absent) run
    rw [dealing.candidate] at named
    exact (settles named).dealing named recalls numbered dealing
  exact deals.deals id m present named

theorem elected_of_publish {r next : Run} {v : View} {effects : List Effect}
    (acts : r.Acts v next effects) (published : .publish .leading ∈ effects) :
    r.stage = .elected := by
  cases acts with
  | proclaim stage => exact stage
  | _ => simp at published

theorem elected_of_published {id : Nat} {now : Instant} {m next : Member} {facts : List Fact}
    (turn : Turn id now m next facts) (published : .published id .leading ∈ facts) :
    m.run.stage = .elected := by
  cases turn with
  | act acts => exact elected_of_publish acts (Member.publish_of_facts published)
  | @read goal wall answer next effects stage reads =>
      rcases List.mem_append.mp published with looked | later
      · cases answer with
        | ok found => cases found <;> simp [readFacts] at looked
        | error err => cases looked
      · exact absurd (Member.publish_of_facts later) (reads.publish _)
  | @write w answer next effects called writes =>
      rcases List.mem_append.mp published with written | later
      · cases answer <;> simp [writeFacts] at written
      · exact absurd (Member.publish_of_facts later) (writes.publish _)
  | request =>
      simp only [Member.requestFacts] at published
      split at published <;> simp at published
  | trigger => cases published
  | finish => simp at published

/-- Whoever has led has stored a record under its name. -/
def Merited (c : Contest) : Prop :=
  ∀ id m, c.members.get? id = some m → m.run.candidate.identity ≠ "" →
    .published id .leading ∈ c.log →
      ∃ x ∈ c.log.records m.run.candidate.resource, x.Claims id m.run.candidate.identity

theorem merited_of_play {moves : List Move} {c : Contest}
    (run : Contest.empty.play moves = some c) : c.Merited := by
  refine reachable_induction ?_ ?_ run
  · intro id m present
    cases present
  intro moves c next move reached ih step id n found named led
  have grown : ∀ facts key, (∃ x ∈ c.log.records key, x.Claims id n.run.candidate.identity) →
      ∃ x ∈ Log.records (c.log ++ facts) key, x.Claims id n.run.candidate.identity := by
    rintro facts key ⟨x, member, claims⟩
    rw [Log.records_append]
    exact ⟨x, List.mem_append_left _ member, claims⟩
  cases part_of_step step found with
  | start fresh unused log now =>
      rw [log] at led
      have before : Fact.published id .leading ∈ c.log := by simpa using led
      exact absurd ((chronicle_of_play reached).started _ before id rfl) unused
  | @turn before facts present turn log now =>
      rw [turn.candidate] at named grown ⊢
      rw [log] at led ⊢
      apply grown
      rcases List.mem_append.mp led with already | now
      · exact ih id before present named already
      · -- Only a run that has won its lease proclaims that it leads.
        have settles := settles_of_play reached present named
        apply settles.won
        rw [elected_of_published turn now]
        rfl
  | aside present elsewhere log now =>
      rw [log] at led ⊢
      apply grown
      rcases List.mem_append.mp led with already | now
      · exact ih id n present named already
      · exact absurd rfl (elsewhere _ now)

/-- Of the records with a property one is the latest. -/
theorem exists_latest {P : Record → Prop} {records : List Record} (some : ∃ x ∈ records, P x) :
    ∃ x ∈ records, P x ∧ ∀ y ∈ records, P y → y.entry.version ≤ x.entry.version := by
  have finite : {x | x ∈ records ∧ P x}.Finite :=
    records.finite_toSet.subset fun x member => member.1
  obtain ⟨x, ⟨member, holds⟩, latest⟩ :=
    Set.exists_max_image _ (fun x => x.entry.version) finite some
  exact ⟨x, member, holds, fun y inRecords also => latest y ⟨inRecords, also⟩⟩

/-- The lease of a run that has led and ended is no longer the one that it stored under its name:
the run has replaced that by handing it back, or somebody else has replaced it, and either way the
run has stored nothing since. No run is started without a name (`ElectionError.emptyIdentity`). -/
theorem handedBack_or_replaced {moves : List Move} {c : Contest} {id : Nat} {m : Member}
    {outcome : Outcome} (run : Contest.empty.play moves = some c)
    (present : c.members.get? id = some m) (named : m.run.candidate.identity ≠ "")
    (led : .published id .leading ∈ c.log) (ended : m.run.stage = .ended outcome) :
    (∃ x, (c.log.records m.run.candidate.resource).getLast? = some x ∧
      c.store.get? m.run.candidate.resource = some x.entry ∧
      ¬ x.Claims id m.run.candidate.identity) ∧
    ∃ own ∈ c.log.records m.run.candidate.resource,
      ∃ next ∈ c.log.records m.run.candidate.resource,
        own.Claims id m.run.candidate.identity ∧
        next.entry.version = own.entry.version + 1 ∧
        (next.Returns id ∨ next.author ≠ some id) ∧
        ∀ y ∈ c.log.records m.run.candidate.resource, y.author = some id →
          y.entry.version ≤ next.entry.version := by
  have keeps := (chronicle_of_play run).keeps
  have numbered := keeps.numbered m.run.candidate.resource
  have current := keeps.current m.run.candidate.resource
  have settles := settles_of_play run present named
  obtain ⟨own, stored, claims, latest⟩ := exists_latest (merited_of_play run id m present named led)
  generalize c.log.records m.run.candidate.resource = records at *
  have last := List.getLast?_eq_some_getLast (List.ne_nil_of_mem stored)
  have unclaimed := settles.parted (by rw [ended]; rfl) _ last
  refine ⟨⟨_, last, by rw [current, last]; rfl, unclaimed⟩, own, stored, ?_⟩
  have atEnd := numbered.last_version last
  have before : own.entry.version < records.length := by
    refine Nat.lt_of_le_of_ne (numbered.version_le_length stored) fun same => unclaimed ?_
    rw [← numbered.unique stored (List.mem_of_getLast? last) (same.trans atEnd.symm)]
    exact claims
  obtain ⟨next, after, version⟩ := numbered.exists_version (List.mem_of_getLast? last)
    (own.entry.version + 1) (by omega) (by omega)
  have foreign : ¬ next.Claims id m.run.candidate.identity := by
    intro claimed
    have bound := latest next after claimed
    omega
  refine ⟨next, after, claims, version, ?_, ?_⟩
  · by_cases author : next.author = some id
    · exact .inl (settles.returns next after author fun names => foreign ⟨author, names⟩).1
    · exact .inr author
  · intro y member author
    by_cases names : y.Names m.run.candidate.identity
    · have bound := latest y member ⟨author, names⟩
      omega
    · obtain ⟨-, x, before, claimed, replaced⟩ := settles.returns y member author names
      have bound := latest x before claimed
      omega

/-- A run wins its lease, somebody else takes it over while the work runs, and the release is
refused. -/
def replacedWhileWorking : List Move :=
  [.start 1 ⟨"a", "test/lease", .ofSeconds 10, .ofSeconds 2⟩, .act 1 (.ofUnix 0 0),
    .act 1 (.ofUnix 0 0), .call 1, .call 1, .act 1 (.ofUnix 0 0), .act 1 (.ofUnix 0 0),
    .pass (.ofSeconds 1),
    .foreign "test/lease" (.update 1 ⟨"x", .ofSeconds 10, .ofUnix 1 0, .ofUnix 1 0, 1⟩),
    .finish 1 .done, .act 1 (.ofUnix 1 0), .act 1 (.ofUnix 1 0), .call 1, .act 1 (.ofUnix 1 0),
    .act 1 (.ofUnix 1 0)]

theorem handedBack_or_replaced_whileWorking :
    ∃ c m outcome, Contest.empty.play replacedWhileWorking = some c ∧
      c.members.get? 1 = some m ∧ m.run.candidate.identity ≠ "" ∧
      .published 1 .leading ∈ c.log ∧ m.run.stage = .ended outcome ∧
      ∃ x : Record, c.store.get? m.run.candidate.resource = some x.entry ∧
        ¬ x.Claims 1 m.run.candidate.identity := by
  have played : ((Contest.empty.play replacedWhileWorking).bind fun c =>
      (c.members.get? 1).map fun m => (decide (m.run.candidate.identity ≠ ""), m.run.stage,
        decide (.published 1 .leading ∈ c.log))) =
      some (true, .ended (.lost "test/lease"), true) := by
    decide +kernel
  obtain ⟨c, run, rest⟩ := Option.bind_eq_some_iff.mp played
  obtain ⟨m, present, found⟩ := Option.map_eq_some_iff.mp rest
  simp only [Prod.mk.injEq, decide_eq_true_eq] at found
  obtain ⟨named, ended, led⟩ := found
  obtain ⟨⟨x, -, current, unclaimed⟩, -⟩ := handedBack_or_replaced run present named led ended
  exact ⟨c, m, _, run, present, named, led, ended, x, current, unclaimed⟩

end Contest

end LeaderLease
