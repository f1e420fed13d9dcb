import LeaderLease.Proofs.Phases
import LeaderLease.Termination.Office
import Mathlib.Logic.Function.Basic

/-!
# Done signals and their clones

`Office.Rush` adds to an office the calls of `fire` that are on their way, so that signals are made
and cloned, calls begin and take their steps, and holders wait, in any order. A look at a signal
changes nothing, so it is no event: it may be taken behind any row of events. `Office.Rush.race?`
picks out the calls on one signal, whichever names they came through, and every event keeps them to
the phases of a race (`Office.Rush.follows_run`). `Office.Rush.firesOnce` draws from this what the
holders of a signal and of its clones rely on.
-/

set_option autoImplicit false

namespace LeaderLease

open DoneSignal (Caller Race)

namespace Office

/-! ## Waiting -/

/-- The signals and their names are as they were. -/
def SameDones (o o' : Office) : Prop := o'.doneNames = o.doneNames ∧ o'.dones = o.dones

theorem sameDones_pass (o : Office) : o.SameDones o.pass := by
  have turns (ls : List Listener) (o : Office) : o.SameDones (ls.foldl
      (fun o l => { o with tokens := l.turn o.tokens (o.isComplete l.trigger) }) o) := by
    induction ls generalizing o with
    | nil => exact ⟨rfl, rfl⟩
    | cons l ls ih => exact ih { o with tokens := l.turn o.tokens (o.isComplete l.trigger) }
  exact turns o.listeners.values o

theorem sameDones_sleep (o : Office) (millis : Nat) : o.SameDones (o.sleep millis) := by
  have passes (n : Nat) (o : Office) : o.SameDones (Nat.repeat pass n o) := by
    induction n with
    | zero => exact ⟨rfl, rfl⟩
    | succ n ih =>
        obtain ⟨names, dones⟩ := sameDones_pass (Nat.repeat pass n o)
        exact ⟨names.trans ih.1, dones.trans ih.2⟩
  exact passes o.listeners.entries.length { o with clock := o.clock + millis }

theorem sameDones_wait (o : Office) (name : String) : o.SameDones (o.wait name).2 := by
  unfold wait
  split
  · split
    · exact ⟨rfl, rfl⟩
    · exact sameDones_sleep o 1
  · exact ⟨rfl, rfl⟩

/-! ## Calls on the signals of an office -/

/-- An office with the calls of `fire` that were made, for each signal by its number, and how often
those who wait for it were notified. -/
structure Rush where
  office : Office
  callers : Nat → List Caller
  notifications : Nat → Nat

namespace Rush

/-- A call is made through a name and stays with the signal that the name then stands for. -/
inductive Event where
  | add (name : String)
  | clone (name source : String)
  | call (name : String)
  /-- The next step of a call on a signal. -/
  | step (signal call : Nat)
  | wait (name : String)
deriving DecidableEq, Repr

/-- Nobody has called yet. -/
def ofOffice (o : Office) : Rush := ⟨o, fun _ => [], fun _ => 0⟩

/-- The calls on one signal. -/
def race? (s : Rush) (n : Nat) : Option Race :=
  s.office.dones[n]?.map fun d => ⟨d, s.callers n, s.notifications n⟩

def modify (s : Rush) (n : Nat) (f : Race → Race) : Rush :=
  match s.race? n with
  | some r => {
      office := { s.office with dones := s.office.dones.set n (f r).signal }
      callers := Function.update s.callers n (f r).callers
      notifications := Function.update s.notifications n (f r).notifications }
  | none => s

def step (s : Rush) : Event → Rush
  | .add name => { s with office := s.office.addDone name }
  | .clone name source => { s with office := s.office.cloneDone name source }
  | .call name =>
    match s.office.doneNames.get? name with
    | some n => s.modify n Race.enter
    | none => s
  | .step n i => s.modify n fun r => r.step i
  | .wait name => { s with office := (s.office.wait name).2 }

def run (s : Rush) (es : List Event) : Rush := es.foldl step s

/-- A new call on a signal, the `i`-th, whose two steps nobody comes between. -/
def wholeCall (name : String) (n i : Nat) : List Event := [.call name, .step n i, .step n i]

/-- What a look at a signal shows. -/
def isFired (s : Rush) (name : String) : Bool := (s.office.done? name).any (·.fired)

/-- Somebody who waits for a signal goes on now. -/
def waitEnds (s : Rush) (name : String) : Bool := (s.office.wait name).1

variable {s : Rush} {n : Nat} {r : Race} {o : Office}

theorem race?_eq_some_iff : s.race? n = some r ↔
    s.office.dones[n]? = some r.signal ∧ s.callers n = r.callers ∧
      s.notifications n = r.notifications := by
  rw [race?, Option.map_eq_some_iff]
  constructor
  · rintro ⟨d, found, rfl⟩
    exact ⟨found, rfl, rfl⟩
  · rintro ⟨found, callers, notifications⟩
    exact ⟨_, found, by rw [callers, notifications]⟩

theorem race?_modify_self (found : s.race? n = some r) (f : Race → Race) :
    (s.modify n f).race? n = some (f r) := by
  obtain ⟨inside, -⟩ := List.getElem?_eq_some_iff.mp (race?_eq_some_iff.mp found).1
  simp [race?_eq_some_iff, modify, found, inside]

theorem race?_modify_of_ne {m : Nat} (other : m ≠ n) (f : Race → Race) :
    (s.modify m f).race? n = s.race? n := by
  unfold modify
  split
  · simp [race?, other, Ne.symm other]
  · rfl

theorem modify_modify (s : Rush) (n : Nat) (f g : Race → Race) :
    (s.modify n f).modify n g = s.modify n fun r => g (f r) := by
  cases found : s.race? n with
  | none => simp [modify, found]
  | some r =>
      have changed := race?_modify_self found f
      rw [modify, changed]
      simp [modify, found]

/-! ## What events do to the calls on a signal -/

/-- An event leaves the calls on a signal alone, or adds one, or is a step of one. -/
inductive Affects (n : Nat) (r : Race) : Event → Race → Prop where
  | leaves {e : Event} : (∀ i, e ≠ .step n i) → Affects n r e r
  | enters {e : Event} : (∀ i, e ≠ .step n i) → Affects n r e r.enter
  | steps (i : Nat) : Affects n r (.step n i) (r.step i)

theorem affects_step (found : s.race? n = some r) (e : Event) :
    ∃ r', (s.step e).race? n = some r' ∧ Affects n r e r' := by
  obtain ⟨signal, -⟩ := race?_eq_some_iff.mp found
  cases e with
  | add name =>
      obtain ⟨inside, -⟩ := List.getElem?_eq_some_iff.mp signal
      have kept : (s.office.addDone name).dones[n]? = s.office.dones[n]? :=
        List.getElem?_append_left inside
      refine ⟨r, ?_, .leaves nofun⟩
      rw [← found, step, race?, race?, kept]
  | clone name source =>
      have kept : (s.office.cloneDone name source).dones = s.office.dones := by
        unfold cloneDone
        split <;> rfl
      refine ⟨r, ?_, .leaves nofun⟩
      rw [← found, step, race?, race?, kept]
  | call name =>
      rw [step]
      cases named : s.office.doneNames.get? name with
      | none => exact ⟨r, found, .leaves nofun⟩
      | some m =>
          by_cases same : m = n
          · subst same
            exact ⟨_, race?_modify_self found _, .enters nofun⟩
          · exact ⟨r, (race?_modify_of_ne same _).trans found, .leaves nofun⟩
  | step m i =>
      rw [step]
      by_cases same : m = n
      · subst same
        exact ⟨_, race?_modify_self found _, .steps i⟩
      · refine ⟨r, (race?_modify_of_ne same _).trans found, .leaves fun j hit => ?_⟩
        exact same (Event.step.inj hit).1
  | wait name =>
      refine ⟨r, ?_, .leaves nofun⟩
      rw [← found, step, race?, race?, (sameDones_wait s.office name).2]

theorem Affects.follows {e : Event} {r' : Race} (affects : Affects n r e r') :
    Race.Follows (fun i => [e].count (.step n i)) r r' := by
  have idle (elsewhere : ∀ i, e ≠ .step n i) :
      (fun i => [e].count (.step n i)) = fun _ => 0 := by
    funext i
    simp [elsewhere i]
  cases affects with
  | leaves elsewhere =>
      rw [idle elsewhere]
      exact Race.follows_refl r
  | enters elsewhere =>
      rw [idle elsewhere]
      exact Race.follows_enter r
  | steps i =>
      have own : (fun j => [Event.step n i].count (.step n j)) =
          fun j => if i = j then 1 else 0 := by
        funext j
        simp [List.count_singleton]
      rw [own]
      exact Race.follows_step r i

/-- Whatever else happens, the calls on a signal go on as in a race of their own. -/
theorem follows_run (found : s.race? n = some r) (es : List Event) :
    ∃ r', (s.run es).race? n = some r' ∧ Race.Follows (fun i => es.count (.step n i)) r r' := by
  induction es generalizing s r with
  | nil => exact ⟨r, found, Race.follows_refl r⟩
  | cons e es ih =>
      obtain ⟨r', found', affects⟩ := affects_step found e
      obtain ⟨r'', found'', follows⟩ := ih found'
      refine ⟨r'', found'', affects.follows.trans follows fun i => ?_⟩
      have split : (e :: es).count (.step n i) =
          [e].count (.step n i) + es.count (.step n i) := by
        rw [← List.count_append, List.singleton_append]
      exact Nat.le_of_eq split

/-- The waiters are notified in a step of the call that is thereby told that it was the first. -/
theorem Affects.notifying {e : Event} {r' : Race} (affects : Affects n r e r')
    (notified : r'.notifications ≠ r.notifications) :
    ∃ i : Nat, e = .step n i ∧ r.callers[i]? = some .notifying ∧
      r'.callers[i]? = some (.returned true) := by
  cases affects with
  | leaves elsewhere => exact absurd rfl notified
  | enters elsewhere => exact absurd rfl notified
  | steps i =>
      cases stands : r.callers[i]? with
      | none =>
          rw [Race.step_of_absent stands] at notified
          exact absurd rfl notified
      | some c =>
          obtain rfl : c = .notifying := by
            by_contra other
            exact notified (by rw [Race.step_eq stands, if_neg other, Nat.add_zero])
          exact ⟨i, rfl, stands, Race.getElem?_step_self stands⟩

/-! ## Holders -/

theorem office_modify (found : s.race? n = some r) (f : Race → Race) :
    (s.modify n f).office =
      { s.office with dones := s.office.dones.set n (f r).signal } := by
  rw [modify, found]

theorem fire_eq_wholeCall (found : s.race? n = some r) {name : String}
    (named : s.office.doneNames.get? name = some n) :
    (s.run (wholeCall name n r.callers.length)).office = (s.office.fire name).2 ∧
      ((s.run (wholeCall name n r.callers.length)).callers n)[r.callers.length]? =
        some (.returned (s.office.fire name).1) := by
  have ready : r.enter.callers[r.callers.length]? = some .ready := by
    simp [Race.enter]
  obtain ⟨signal, told⟩ := Race.fire_of_ready ready
  have signal' := (race?_eq_some_iff.mp found).1
  have all : s.run (wholeCall name n r.callers.length) =
      s.modify n fun r' => (r'.enter.step r.callers.length).step r.callers.length := by
    simp [wholeCall, run, step, named, modify_modify]
  rw [all, office_modify found, signal,
    (race?_eq_some_iff.mp (race?_modify_self found _)).2.1, told]
  simp [Office.fire, withDone, named, signal', Race.enter]

theorem shown_eq (found : s.race? n = some r) {name : String}
    (named : s.office.doneNames.get? name = some n) :
    s.isFired name = r.signal.fired ∧ s.waitEnds name = r.signal.notified := by
  have held : s.office.done? name = some r.signal := by
    simp [done?, named, (race?_eq_some_iff.mp found).1]
  constructor
  · simp [isFired, held]
  · cases notified : r.signal.notified <;> simp [waitEnds, wait, held, notified]

/-- What the calls on a signal have come to, and what the holders of the signal and of its clones
see of it, now and behind more events. -/
structure FiresOnce (s : Rush) (n : Nat) (r : Race) : Prop where
  /-- The first step of a call sets the flag. -/
  fired : r.signal.fired = true ↔ ∃ c ∈ r.callers, c ≠ .ready
  /-- Then one call was the first, and no other is told that it was. -/
  first : r.signal.fired = true → ∃! i, r.WasFirst i
  /-- Unless the first call stands between its steps, exactly one was told. -/
  winners : r.winners = if r.signal.fired = true ∧ .notifying ∉ r.callers then 1 else 0
  winner : r.callers ≠ [] → (∀ c ∈ r.callers, ∃ first, c = .returned first) →
    ∃! i : Nat, r.callers[i]? = some (.returned true)
  /-- A call that takes its two steps returns, whoever comes between them. -/
  returns : ∀ more i, i < r.callers.length → 2 ≤ more.count (.step n i) →
    ∃ first, ((s.run more).callers n)[i]? = some (.returned first)
  /-- What a call was told is not taken back. -/
  told : ∀ more (i : Nat) first, r.callers[i]? = some (.returned first) →
    ((s.run more).callers n)[i]? = some (.returned first)
  /-- A call that nobody comes between is `fire`. -/
  whole : ∀ name, s.office.doneNames.get? name = some n →
    (s.run (wholeCall name n r.callers.length)).office = (s.office.fire name).2 ∧
      ((s.run (wholeCall name n r.callers.length)).callers n)[r.callers.length]? =
        some (.returned (s.office.fire name).1)
  notifications : r.notifications = r.winners
  notified : r.signal.notified = true ↔ r.winners = 1
  /-- Only the call that is thereby told that it was the first notifies. -/
  notifies : ∀ e r', (s.step e).race? n = some r' → r'.notifications ≠ r.notifications →
    ∃ i : Nat, e = .step n i ∧ r.callers[i]? = some .notifying ∧
      r'.callers[i]? = some (.returned true)
  /-- A clone stands for the same signal. -/
  cloned : ∀ name clone, s.office.doneNames.get? name = some n →
    (s.step (.clone clone name)).office.doneNames.get? clone = some n
  /-- A call through any clone joins the others. -/
  joins : ∀ name, s.office.doneNames.get? name = some n →
    (s.step (.call name)).race? n = some r.enter
  shown : ∀ name, s.office.doneNames.get? name = some n →
    s.isFired name = r.signal.fired ∧ s.waitEnds name = r.signal.notified
  /-- Once a look has shown the flag set, every later one does, through whichever clone. -/
  stays : ∀ more name clone, s.office.doneNames.get? name = some n →
    (s.run more).office.doneNames.get? clone = some n →
    s.isFired name = true → (s.run more).isFired clone = true
  /-- When a wait is over, every look shows the flag set. -/
  waits : ∀ more name clone, s.office.doneNames.get? name = some n →
    (s.run more).office.doneNames.get? clone = some n →
    s.waitEnds name = true → (s.run more).isFired clone = true

/-- However the calls through a new signal and its clones come between one another, one of them is
told that it was the first, it alone notifies, and nobody stops waiting before the flag is set for
good. -/
theorem firesOnce (new : o.dones[n]? = some {}) (es : List Event) :
    ∃ r, ((ofOffice o).run es).race? n = some r ∧ FiresOnce ((ofOffice o).run es) n r := by
  have start : (ofOffice o).race? n = some (.start 0) :=
    race?_eq_some_iff.mpr ⟨new, rfl, rfl⟩
  obtain ⟨r, found, follows⟩ := follows_run start es
  -- What holds now is read off the phase, and what holds later off the way there.
  obtain ⟨p, h⟩ := follows.sound ⟨_, Race.in_start 0⟩
  have later (more : List Event) := follows_run found more
  refine ⟨r, found, {
    fired := h.fired_iff
    first := h.existsUnique_wasFirst
    winners := h.winners_eq
    winner := h.existsUnique_winner
    returns := ?returns
    told := ?told
    whole := fun name named => fire_eq_wholeCall found named
    notifications := h.notifications.trans h.winners.symm
    notified := h.notified_iff
    notifies := ?notifies
    cloned := ?cloned
    joins := ?joins
    shown := fun name named => shown_eq found named
    stays := ?stays
    waits := ?waits }⟩
  case returns =>
    intro more i inside twice
    obtain ⟨r', found', follows⟩ := later more
    rw [(race?_eq_some_iff.mp found').2.1]
    exact follows.exists_returned inside twice
  case told =>
    intro more i first told
    obtain ⟨r', found', follows⟩ := later more
    rw [(race?_eq_some_iff.mp found').2.1]
    exact follows.getElem?_returned told
  case notifies =>
    intro e r' found' notified
    obtain ⟨r'', found'', affects⟩ := affects_step found e
    obtain rfl := Option.some.inj (found''.symm.trans found')
    exact affects.notifying notified
  case cloned =>
    intro name clone named
    simp [step, cloneDone, named]
  case joins =>
    intro name named
    simp [step, named, race?_modify_self found]
  case stays =>
    intro more name clone named named' fired
    obtain ⟨r', found', follows⟩ := later more
    rw [(shown_eq found named).1] at fired
    rw [(shown_eq found' named').1]
    exact follows.fired fired
  case waits =>
    intro more name clone named named' ended
    obtain ⟨r', found', follows⟩ := later more
    rw [(shown_eq found named).2] at ended
    rw [(shown_eq found' named').1]
    exact follows.fired (h.fired_of_notified ended)

/-- A done signal with a clone. -/
def shared : Office := (({} : Office).addDone "done").cloneDone "copy" "done"

/-- A call through the clone comes between the steps of another call, and somebody waits. -/
def overtaken : List Event :=
  [.call "done", .call "copy", .step 0 0, .step 0 1, .wait "done"]

/-- The later call returns before the waiters are notified. When the first one has notified them,
a wait through the clone is over, and what the later call was told stands. -/
theorem firesOnce_overtaken :
    shared.dones[0]? = some ({} : DoneSignal) ∧
      ((ofOffice shared).run overtaken).isFired "copy" = true ∧
      ((ofOffice shared).run overtaken).waitEnds "copy" = false ∧
      ((((ofOffice shared).run overtaken).run [.step 0 0]).callers 0)[1]? =
        some (.returned false) ∧
      (((ofOffice shared).run (overtaken ++ [.step 0 0])).callers 0).count (.returned true) = 1 ∧
      ((ofOffice shared).run (overtaken ++ [.step 0 0])).waitEnds "copy" = true := by
  have new : shared.dones[0]? = some ({} : DoneSignal) := by decide
  obtain ⟨r, found, once⟩ := firesOnce new overtaken
  obtain ⟨r', found', once'⟩ := firesOnce new (overtaken ++ [.step 0 0])
  obtain rfl : r = ⟨⟨true, false⟩, [.notifying, .returned false], 0⟩ :=
    Option.some.inj (found.symm.trans (by decide))
  obtain rfl : r' = ⟨⟨true, true⟩, [.returned true, .returned false], 1⟩ :=
    Option.some.inj (found'.symm.trans (by decide))
  have shown := once.shown "copy" (by decide)
  have shown' := once'.shown "copy" (by decide)
  have told := once.told [.step 0 0] 1 false rfl
  have winners := once'.winners
  refine ⟨new, shown.1, shown.2, told, ?_, shown'.2⟩
  rw [(race?_eq_some_iff.mp found').2.1]
  exact winners

end Rush

end Office

end LeaderLease
