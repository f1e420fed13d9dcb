import LeaderLease.Termination.DoneSignal
import Mathlib.Data.List.Nodup

/-!
# Phases of a race

A call of `fire` sets the flag of its signal and then, if it was the first, notifies whoever waits.
`Phase` says how far any number of such calls have come: none has taken a step, or one of them has
set the flag first, or that one has notified too. `Race.In` ties a race to its phase, and every step
leads from phase to phase (`Race.In.step`). So one call wins, in whatever order the calls take their
steps (`Race.winners_run`).
-/

set_option autoImplicit false

namespace LeaderLease

namespace DoneSignal

namespace Caller

/-- Where a call stands after its next step. The flag may have been set before. -/
def next (fired : Bool) : Caller → Caller
  | .ready => if fired then .returned false else .notifying
  | .notifying => .returned true
  | .returned first => .returned first

/-- What the next step of a call does to the signal. -/
def act : Caller → DoneSignal → DoneSignal
  | .ready, d => d.claim.2
  | .notifying, d => d.notify
  | .returned _, d => d

/-- Once the flag is set, only the notifying call changes the signal. -/
theorem act_of_fired (c : Caller) {d : DoneSignal} (fired : d.fired = true)
    (idle : c ≠ .notifying) : c.act d = d := by
  cases c with
  | ready => simp [act, claim, ← fired]
  | notifying => exact absurd rfl idle
  | returned first => rfl

/-- The steps that a call has left at most. -/
def left : Caller → Nat
  | .ready => 2
  | .notifying => 1
  | .returned _ => 0

theorem left_next_le (c : Caller) (fired : Bool) : (c.next fired).left ≤ c.left - 1 := by
  cases c with
  | ready => cases fired <;> decide
  | notifying => exact Nat.le_refl 0
  | returned first => exact Nat.le_refl 0

theorem left_le (c : Caller) : c.left ≤ 2 := by
  cases c with
  | ready => exact Nat.le_refl 2
  | notifying => exact Nat.le_succ 1
  | returned first => exact Nat.zero_le 2

theorem eq_returned_of_left {c : Caller} (ended : c.left = 0) : ∃ first, c = .returned first := by
  cases c with
  | ready => cases ended
  | notifying => cases ended
  | returned first => exact ⟨first, rfl⟩

end Caller

/-! ## Phases -/

/-- How far the calls on a new signal have come. -/
inductive Phase where
  | unset
  /-- A call has set the flag and is about to notify. -/
  | claimed (first : Nat)
  | settled (first : Nat)
deriving DecidableEq, Repr

namespace Phase

def signal : Phase → DoneSignal
  | .unset => ⟨false, false⟩
  | .claimed _ => ⟨true, false⟩
  | .settled _ => ⟨true, true⟩

/-- The call that has set the flag. -/
def first? : Phase → Option Nat
  | .unset => none
  | .claimed first | .settled first => some first

def winners : Phase → Nat
  | .unset | .claimed _ => 0
  | .settled _ => 1

/-- Where a call may stand in a phase. -/
inductive Allows : Phase → Nat → Caller → Prop where
  | ready {p : Phase} {i : Nat} : p.first? ≠ some i → Allows p i .ready
  | late {p : Phase} {i first : Nat} : p.first? = some first → first ≠ i →
      Allows p i (.returned false)
  | notifying {i : Nat} : Allows (.claimed i) i .notifying
  | first {i : Nat} : Allows (.settled i) i (.returned true)

/-- The phase after a step of a call. -/
def next : Phase → Nat → Phase
  | .unset, i => .claimed i
  | .claimed first, i => if i = first then .settled first else .claimed first
  | .settled first, _ => .settled first

variable {p : Phase} {i j : Nat} {c : Caller}

/-- Whoever was first stays first. -/
theorem first?_next (p : Phase) (i : Nat) : (p.next i).first? = some (p.first?.getD i) := by
  cases p with
  | unset => rfl
  | claimed first =>
      rw [next]
      split <;> rfl
  | settled first => rfl

/-- Where the call that set the flag may stand. -/
theorem Allows.of_first (stands : p.Allows i c) (set : p.first? = some i) :
    c = .notifying ∨ c = .returned true := by
  cases stands with
  | ready behind => exact absurd set behind
  | late first other => exact absurd (Option.some.inj (first.symm.trans set)) other
  | notifying => exact .inl rfl
  | first => exact .inr rfl

theorem fired_signal (p : Phase) : p.signal.fired = p.first?.isSome := by
  cases p <;> rfl

/-- A step sets the flag, or it is the one that notifies, or it changes nothing of the signal. -/
theorem next_cases (stands : p.Allows i c) :
    (p = .unset ∧ c = .ready ∧ p.next i = .claimed i) ∨
      (p = .claimed i ∧ c = .notifying ∧ p.next i = .settled i) ∨
      (p.next i = p ∧ p.signal.fired = true ∧ c ≠ .notifying) := by
  cases stands with
  | ready behind =>
      cases p with
      | unset => exact .inl ⟨rfl, rfl, rfl⟩
      | claimed first =>
          have other : i ≠ first := fun same => behind (congrArg some same.symm)
          exact .inr (.inr ⟨if_neg other, rfl, nofun⟩)
      | settled first => exact .inr (.inr ⟨rfl, rfl, nofun⟩)
  | late set other =>
      cases p with
      | unset => cases set
      | claimed first =>
          obtain rfl := Option.some.inj set
          exact .inr (.inr ⟨if_neg other.symm, rfl, nofun⟩)
      | settled first => exact .inr (.inr ⟨rfl, rfl, nofun⟩)
  | notifying => exact .inr (.inl ⟨rfl, rfl, if_pos rfl⟩)
  | first => exact .inr (.inr ⟨rfl, rfl, nofun⟩)

theorem allows_next (stands : p.Allows i c) : (p.next i).Allows i (c.next p.signal.fired) := by
  rcases next_cases stands with ⟨rfl, rfl, moved⟩ | ⟨rfl, rfl, moved⟩ | ⟨same, fired, idle⟩
  · exact .notifying
  · rw [moved]
    exact .first
  -- The flag was set by another call or by this one, which has nothing more to do then.
  · rw [same, fired]
    cases stands with
    | ready behind =>
        rw [fired_signal] at fired
        obtain ⟨first, set⟩ := Option.isSome_iff_exists.mp fired
        exact .late set fun own => behind (set.trans (congrArg some own))
    | late set other => exact .late set other
    | notifying => exact absurd rfl idle
    | first => exact .first

theorem allows_next_of_ne (stands : p.Allows j c) (other : i ≠ j) : (p.next i).Allows j c := by
  cases stands with
  | ready behind =>
      refine .ready fun first => ?_
      cases set : p.first? with
      | none => exact other (by simpa [first?_next, set] using first)
      | some k => exact behind (by simpa [first?_next, set] using first)
  | late set behind => exact .late (by rw [first?_next, set, Option.getD_some]) behind
  | notifying =>
      rw [next, if_neg other]
      exact .notifying
  | first => exact .first

theorem signal_next (stands : p.Allows i c) : (p.next i).signal = c.act p.signal := by
  rcases next_cases stands with ⟨rfl, rfl, moved⟩ | ⟨rfl, rfl, moved⟩ | ⟨same, fired, idle⟩
  · rfl
  · rw [moved]
    rfl
  · rw [same, c.act_of_fired fired idle]

theorem winners_next (stands : p.Allows i c) :
    (p.next i).winners = p.winners + if c = .notifying then 1 else 0 := by
  rcases next_cases stands with ⟨rfl, rfl, moved⟩ | ⟨rfl, rfl, moved⟩ | ⟨same, -, idle⟩
  · rfl
  · rw [moved]
    rfl
  · rw [same, if_neg idle, Nat.add_zero]

end Phase

/-! ## The calls on one signal -/

namespace Race

variable {r : Race} {p : Phase}

/-- A further call begins; it has taken no step. -/
def enter (r : Race) : Race := { r with callers := r.callers ++ [.ready] }

/-- The call has set the flag before all others. -/
def WasFirst (r : Race) (i : Nat) : Prop :=
  r.callers[i]? = some .notifying ∨ r.callers[i]? = some (.returned true)

theorem getElem?_enter {i : Nat} {c : Caller} (stands : r.callers[i]? = some c) :
    r.enter.callers[i]? = some c := by
  obtain ⟨inside, -⟩ := List.getElem?_eq_some_iff.mp stands
  rw [enter, List.getElem?_append_left inside, stands]

/-- All that a step does. -/
theorem step_eq {i : Nat} {c : Caller} (stands : r.callers[i]? = some c) :
    r.step i = ⟨c.act r.signal, r.callers.set i (c.next r.signal.fired),
      r.notifications + if c = .notifying then 1 else 0⟩ := by
  cases c with
  | ready =>
      cases fired : r.signal.fired <;>
        simp [step, stands, Caller.act, Caller.next, claim, fired]
  | notifying => simp [step, stands, Caller.act, Caller.next]
  | returned first =>
      obtain ⟨inside, same⟩ := List.getElem?_eq_some_iff.mp stands
      have kept : r.callers.set i (.returned first) = r.callers := by
        rw [← same, List.set_getElem_self]
      simp [step, stands, Caller.act, Caller.next, kept]

theorem step_of_absent {i : Nat} (absent : r.callers[i]? = none) : r.step i = r := by
  simp [step, absent]

theorem getElem?_step_self {i : Nat} {c : Caller} (stands : r.callers[i]? = some c) :
    (r.step i).callers[i]? = some (c.next r.signal.fired) := by
  obtain ⟨inside, -⟩ := List.getElem?_eq_some_iff.mp stands
  rw [step_eq stands, List.getElem?_set_self inside]

theorem getElem?_step_of_ne {i j : Nat} (other : i ≠ j) :
    (r.step i).callers[j]? = r.callers[j]? := by
  cases stands : r.callers[i]? with
  | none => rw [step_of_absent stands]
  | some c => rw [step_eq stands, List.getElem?_set_ne other]

theorem length_step (r : Race) (i : Nat) : (r.step i).callers.length = r.callers.length := by
  cases stands : r.callers[i]? with
  | none => rw [step_of_absent stands]
  | some c => rw [step_eq stands, List.length_set]

theorem fired_step (fired : r.signal.fired = true) (i : Nat) :
    (r.step i).signal.fired = true := by
  cases stands : r.callers[i]? with
  | none => rwa [step_of_absent stands]
  | some c =>
      rw [step_eq stands]
      cases c with
      | ready => rfl
      | notifying | returned first => exact fired

/-- A call is told that it was the first in the step in which it notifies. -/
theorem winners_step {i : Nat} {c : Caller} (stands : r.callers[i]? = some c) :
    (r.step i).winners = r.winners + if c = .notifying then 1 else 0 := by
  obtain ⟨inside, same⟩ := List.getElem?_eq_some_iff.mp stands
  cases c with
  | ready =>
      rw [step_eq stands, winners, winners, List.count_set inside, same]
      cases r.signal.fired <;> simp [Caller.next]
  | notifying => simp [step_eq stands, winners, List.count_set inside, same, Caller.next]
  | returned first => simp [winners, step, stands]

/-- The calls have come as far as the phase says. -/
structure In (r : Race) (p : Phase) : Prop where
  signal : r.signal = p.signal
  stages : ∀ i c, r.callers[i]? = some c → p.Allows i c
  present : ∀ i, p.first? = some i → i < r.callers.length
  winners : r.winners = p.winners
  notifications : r.notifications = p.winners

theorem in_start (n : Nat) : (start n).In .unset where
  signal := rfl
  stages i c stands := by
    obtain rfl : c = .ready := List.eq_of_mem_replicate (List.mem_of_getElem? stands)
    exact .ready nofun
  present := nofun
  winners := List.count_eq_zero.mpr fun member => by cases List.eq_of_mem_replicate member
  notifications := rfl

theorem In.enter (h : r.In p) : r.enter.In p where
  signal := h.signal
  stages i c stands := by
    rw [Race.enter, List.getElem?_append] at stands
    split at stands
    · exact h.stages i c stands
    · rename_i behind
      obtain rfl : c = .ready := List.mem_singleton.mp (List.mem_of_getElem? stands)
      exact .ready fun first => behind (h.present i first)
  present i first := by
    have inside := h.present i first
    simp only [Race.enter, List.length_append]
    omega
  winners := by
    rw [← h.winners]
    simp [Race.winners, Race.enter]
  notifications := h.notifications

theorem In.step (h : r.In p) {i : Nat} {c : Caller} (stands : r.callers[i]? = some c) :
    (r.step i).In (p.next i) where
  signal := by rw [step_eq stands, h.signal, Phase.signal_next (h.stages i c stands)]
  stages j c' moved := by
    by_cases own : i = j
    -- The call that moves goes where the new phase wants it, and the others may stay.
    · subst own
      rw [getElem?_step_self stands, h.signal] at moved
      obtain rfl := Option.some.inj moved
      exact Phase.allows_next (h.stages i c stands)
    · rw [getElem?_step_of_ne own] at moved
      exact Phase.allows_next_of_ne (h.stages j c' moved) own
  present j first := by
    rw [length_step]
    rw [Phase.first?_next] at first
    cases set : p.first? with
    | none =>
        obtain rfl : i = j := by simpa [set] using first
        exact (List.getElem?_eq_some_iff.mp stands).1
    | some k => exact h.present j (by simpa [set] using first)
  winners := by rw [winners_step stands, h.winners, Phase.winners_next (h.stages i c stands)]
  notifications := by
    rw [step_eq stands, h.notifications, Phase.winners_next (h.stages i c stands)]

theorem In.wasFirst_iff (h : r.In p) (i : Nat) : r.WasFirst i ↔ p.first? = some i := by
  constructor
  · rintro (stands | stands)
    · cases h.stages i _ stands
      rfl
    · cases h.stages i _ stands
      rfl
  · intro set
    obtain ⟨c, stands⟩ : ∃ c, r.callers[i]? = some c :=
      ⟨_, List.getElem?_eq_getElem (h.present i set)⟩
    rcases (h.stages i c stands).of_first set with rfl | rfl
    · exact .inl stands
    · exact .inr stands

/-- Once the flag is set, exactly one call was the first. -/
theorem In.existsUnique_wasFirst (h : r.In p) (fired : r.signal.fired = true) :
    ∃! i, r.WasFirst i := by
  rw [h.signal, Phase.fired_signal, Option.isSome_iff_exists] at fired
  obtain ⟨i, set⟩ := fired
  refine ⟨i, (h.wasFirst_iff i).mpr set, fun j first => ?_⟩
  exact Option.some.inj (((h.wasFirst_iff j).mp first).symm.trans set)

theorem In.fired_iff (h : r.In p) : r.signal.fired = true ↔ ∃ c ∈ r.callers, c ≠ .ready := by
  rw [h.signal, Phase.fired_signal, Option.isSome_iff_exists]
  constructor
  · rintro ⟨i, set⟩
    rcases (h.wasFirst_iff i).mpr set with stands | stands
    · exact ⟨_, List.mem_of_getElem? stands, nofun⟩
    · exact ⟨_, List.mem_of_getElem? stands, nofun⟩
  · rintro ⟨c, member, begun⟩
    obtain ⟨i, stands⟩ := List.mem_iff_getElem?.mp member
    cases h.stages i c stands with
    | ready behind => exact absurd rfl begun
    | late set other => exact ⟨_, set⟩
    | notifying => exact ⟨i, rfl⟩
    | first => exact ⟨i, rfl⟩

/-- Unless the first call stands between its steps, exactly one has been told that it was. -/
theorem In.winners_eq (h : r.In p) :
    r.winners = if r.signal.fired = true ∧ .notifying ∉ r.callers then 1 else 0 := by
  rw [h.winners, h.signal]
  cases p with
  | unset => rfl
  | claimed i =>
      have stands : r.callers[i]? = some .notifying := by
        rcases (h.wasFirst_iff i).mpr rfl with stands | stands
        · exact stands
        · cases h.stages i _ stands
      rw [if_neg fun ended => ended.2 (List.mem_of_getElem? stands)]
      rfl
  | settled i =>
      have ended : .notifying ∉ r.callers := by
        intro member
        obtain ⟨j, stands⟩ := List.mem_iff_getElem?.mp member
        cases h.stages j _ stands
      rw [if_pos ⟨rfl, ended⟩]
      rfl

/-- When all calls have returned, exactly one was told that it was the first. -/
theorem In.existsUnique_winner (h : r.In p) (nonempty : r.callers ≠ [])
    (ended : ∀ c ∈ r.callers, ∃ first, c = .returned first) :
    ∃! i : Nat, r.callers[i]? = some (.returned true) := by
  have fired : r.signal.fired = true := by
    obtain ⟨c, member⟩ := List.exists_mem_of_ne_nil _ nonempty
    obtain ⟨first, rfl⟩ := ended c member
    exact h.fired_iff.mpr ⟨_, member, nofun⟩
  obtain ⟨i, first, only⟩ := h.existsUnique_wasFirst fired
  refine ⟨i, ?_, fun j told => only j (.inr told)⟩
  rcases first with stands | stands
  · obtain ⟨b, returned⟩ := ended _ (List.mem_of_getElem? stands)
    cases returned
  · exact stands

theorem In.notified_iff (h : r.In p) : r.signal.notified = true ↔ r.winners = 1 := by
  rw [h.winners, h.signal]
  cases p <;> simp [Phase.signal, Phase.winners]

/-- Nobody is notified before the flag is set. -/
theorem In.fired_of_notified (h : r.In p) (notified : r.signal.notified = true) :
    r.signal.fired = true := by
  rw [h.signal] at notified ⊢
  cases p with
  | unset => cases notified
  | claimed first | settled first => rfl

/-- Two steps that nobody comes between are a whole call. -/
theorem fire_of_ready {i : Nat} (ready : r.callers[i]? = some .ready) :
    ((r.step i).step i).signal = r.signal.fire.2 ∧
      ((r.step i).step i).callers[i]? = some (.returned r.signal.fire.1) := by
  have begun := getElem?_step_self ready
  rw [getElem?_step_self begun, step_eq begun, step_eq ready]
  cases fired : r.signal.fired <;> simp [Caller.next, Caller.act, fire, claim, fired]

/-! ## Many steps -/

/-- A race goes on from where it was. Each call has taken so many steps since, or has returned. -/
structure Follows (turns : Nat → Nat) (r r' : Race) : Prop where
  sound : (∃ p, r.In p) → ∃ p, r'.In p
  fired : r.signal.fired = true → r'.signal.fired = true
  stages : ∀ i c, r.callers[i]? = some c → ∃ c', r'.callers[i]? = some c' ∧
    c'.left ≤ c.left - turns i ∧ ∀ first, c = .returned first → c' = .returned first

theorem follows_refl (r : Race) : Follows (fun _ => 0) r r where
  sound := id
  fired := id
  stages _ c stands := ⟨c, stands, Nat.le_refl _, fun _ told => told⟩

theorem follows_enter (r : Race) : Follows (fun _ => 0) r r.enter where
  sound := fun ⟨p, h⟩ => ⟨p, h.enter⟩
  fired := id
  stages _ c stands := ⟨c, getElem?_enter stands, Nat.le_refl _, fun _ told => told⟩

theorem follows_step (r : Race) (i : Nat) :
    Follows (fun j => if i = j then 1 else 0) r (r.step i) where
  sound := by
    rintro ⟨p, h⟩
    cases stands : r.callers[i]? with
    | none => exact ⟨p, by rwa [step_of_absent stands]⟩
    | some c => exact ⟨p.next i, h.step stands⟩
  fired fired := fired_step fired i
  stages j c stands := by
    by_cases own : i = j
    · subst own
      refine ⟨_, getElem?_step_self stands, ?_, ?_⟩
      · rw [if_pos rfl]
        exact c.left_next_le _
      · rintro first rfl
        rfl
    · rw [if_neg own]
      exact ⟨c, by rw [getElem?_step_of_ne own, stands], Nat.le_refl _, fun _ told => told⟩

theorem Follows.trans {turns turns' total : Nat → Nat} {r r' r'' : Race}
    (h : Follows turns r r') (h' : Follows turns' r' r'')
    (most : ∀ i, total i ≤ turns i + turns' i) : Follows total r r'' where
  sound := h'.sound ∘ h.sound
  fired := h'.fired ∘ h.fired
  stages i c stands := by
    obtain ⟨c', stands', left', kept'⟩ := h.stages i c stands
    obtain ⟨c'', stands'', left'', kept''⟩ := h'.stages i c' stands'
    refine ⟨c'', stands'', ?_, fun first told => kept'' first (kept' first told)⟩
    have some := most i
    omega

/-- A call that takes two steps returns, whoever comes between them. -/
theorem Follows.exists_returned {turns : Nat → Nat} {r r' : Race} (h : Follows turns r r')
    {i : Nat} (inside : i < r.callers.length) (twice : 2 ≤ turns i) :
    ∃ first, r'.callers[i]? = some (.returned first) := by
  obtain ⟨c, stands, left, -⟩ := h.stages i _ (List.getElem?_eq_getElem inside)
  have most := r.callers[i].left_le
  obtain ⟨first, rfl⟩ := Caller.eq_returned_of_left (c := c) (by omega)
  exact ⟨first, stands⟩

theorem Follows.getElem?_returned {turns : Nat → Nat} {r r' : Race} (h : Follows turns r r')
    {i : Nat} {first : Bool} (told : r.callers[i]? = some (.returned first)) :
    r'.callers[i]? = some (.returned first) := by
  obtain ⟨c, stands, -, kept⟩ := h.stages i _ told
  rw [stands, kept first rfl]

theorem follows_run (r : Race) (order : List Nat) :
    Follows (fun i => order.count i) r (r.run order) := by
  induction order generalizing r with
  | nil => exact follows_refl r
  | cons i order ih =>
      refine (follows_step r i).trans (ih (r.step i)) fun j => ?_
      rw [List.count_cons, Nat.add_comm]
      simp

theorem length_run (r : Race) (order : List Nat) :
    (r.run order).callers.length = r.callers.length := by
  induction order generalizing r with
  | nil => rfl
  | cons i order ih => exact (ih (r.step i)).trans (length_step r i)

/-- Of any number of calls that all take their two steps, in any order, exactly one wins. -/
theorem winners_run {n : Nat} {order : List Nat} (twice : ∀ i < n, 2 ≤ order.count i) :
    ((start n).run order).winners = min n 1 := by
  have follows := follows_run (start n) order
  obtain ⟨p, h⟩ := follows.sound ⟨_, in_start n⟩
  have length : (start n).callers.length = n := List.length_replicate
  have ended : ∀ c ∈ ((start n).run order).callers, ∃ first, c = .returned first := by
    intro c member
    obtain ⟨i, stands⟩ := List.mem_iff_getElem?.mp member
    obtain ⟨inside, -⟩ := List.getElem?_eq_some_iff.mp stands
    rw [length_run, length] at inside
    obtain ⟨first, told⟩ := follows.exists_returned (by rwa [length]) (twice i inside)
    exact ⟨first, Option.some.inj (stands.symm.trans told)⟩
  cases n with
  | zero =>
      have nobody : ((start 0).run order).callers = [] :=
        List.eq_nil_of_length_eq_zero (by rw [length_run, length])
      rw [winners, nobody]
      rfl
  | succ n =>
      have nonempty : ((start (n + 1)).run order).callers ≠ [] :=
        List.ne_nil_of_length_pos (by rw [length_run, length]; exact Nat.succ_pos n)
      obtain ⟨i, told, -⟩ := h.existsUnique_winner nonempty ended
      rw [h.winners, Nat.min_eq_right (Nat.le_add_left 1 n)]
      cases h.stages i _ told
      rfl

end Race

theorem race_fst (n : Nat) : (({} : DoneSignal).race n).1 = min n 1 := by
  refine Race.winners_run fun i inside => ?_
  have once := List.count_eq_one_of_mem List.nodup_range (List.mem_range.mpr inside)
  have twice : (List.range n ++ List.range n).count i = 1 + 1 := by
    rw [List.count_append, once]
  exact Nat.le_of_eq twice.symm

end DoneSignal

end LeaderLease
