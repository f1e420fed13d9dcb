import LeaderLease.Proofs.Scopes
import LeaderLease.Termination.Office
import Mathlib.Data.List.Nodup
import Mathlib.Data.List.Induction

/-!
# How many listeners the signal desk counts

`Office.play` lets listeners be started, stopped and dropped by name in any order, while scopes are
cancelled, time passes and signals arrive. `Office.standing` reads off such a history which
listeners for signals have been started and neither stopped nor dropped since; starting a listener
under a name drops the one that had it. The desk counts exactly these, and arms the default action
exactly when there are none (`Office.counts_standing`), so a request to terminate ends the process
exactly then, and reaches nothing but their scopes otherwise.
-/

set_option autoImplicit false

namespace LeaderLease

/-! ## The desk -/

namespace SignalDesk

/-- The default action is armed exactly while nobody listens, once somebody has. -/
def Sound (d : SignalDesk) : Prop :=
  if d.installed then (d.armed = true ↔ d.listeners = 0) else d = {}

theorem sound_claim (d : SignalDesk) : d.claim.Sound := by
  simp [Sound, claim]

theorem sound_release {d : SignalDesk} (sound : d.Sound) : d.release.Sound := by
  unfold Sound at sound
  cases installed : d.installed with
  | false => simpa [Sound, release, installed] using sound
  | true =>
      simp only [installed, if_true] at sound
      simp only [Sound, release, installed, if_true, Bool.or_eq_true, decide_eq_true_eq, sound]
      omega

@[simp] theorem listeners_claim (d : SignalDesk) : d.claim.listeners = d.listeners + 1 := rfl

theorem listeners_release {d : SignalDesk} (sound : d.Sound) :
    d.release.listeners = d.listeners - 1 := by
  unfold Sound at sound
  cases installed : d.installed with
  | false =>
      have unused : d = {} := by simpa [installed] using sound
      rw [unused]
      rfl
  | true => simp [release, installed]

theorem isFatal_request {d : SignalDesk} {s : Signal} (sound : d.Sound)
    (request : s.isRequest = true) : d.isFatal s = true ↔ d.listeners = 0 := by
  unfold Sound at sound
  cases installed : d.installed with
  | false =>
      have unused : d = {} := by simpa [installed] using sound
      simp [isFatal, request, unused]
  | true =>
      simp only [installed, if_true] at sound
      simp [isFatal, request, installed, sound]

end SignalDesk

/-- The listener is counted at the desk. -/
def Listener.isActive (l : Listener) : Bool := l.listening && l.trigger = .signals

namespace Office

/-! ## Histories -/

inductive Event where
  | listen (name : String) (parent : Token) (trigger : Trigger)
  | stop (name : String)
  | drop (name : String)
  | cancel (name : String)
  | sleep (millis : Nat)
  | raise (s : Signal)
deriving DecidableEq, Repr

namespace Event

/-- The listener that an event is about. -/
def name? : Event → Option String
  | .listen name _ _ | .stop name | .drop name => some name
  | .cancel _ | .sleep _ | .raise _ => none

/-- The listener for signals that an event starts. -/
def starts? : Event → Option String
  | .listen name _ .signals => some name
  | _ => none

theorem name?_of_starts? {e : Event} {name : String} (started : e.starts? = some name) :
    e.name? = some name := by
  unfold starts? at started
  split at started
  · exact started
  · cases started

end Event

/-- The office after an event, unless the event ends the process. -/
def after (o : Office) : Event → Option Office
  | .listen name parent trigger => some (o.listen name parent trigger)
  | .stop name => some (o.stop name).2
  | .drop name => some (o.drop name)
  | .cancel name => some (o.cancel name)
  | .sleep millis => some (o.sleep millis)
  | .raise s => o.raise s

def play (o : Office) (es : List Event) : Option Office := es.foldlM after o

/-- The listeners for signals that have been started and not been stopped, dropped or replaced
since, in the order of their start. -/
def standing : List Event → List String
  | [] => []
  | e :: later =>
    match e.starts? with
    | some name =>
      if later.any fun other => other.name? = some name then standing later
      else name :: standing later
    | none => standing later

theorem standing_concat (es : List Event) (e : Event) :
    standing (es ++ [e]) =
      (standing es).filter (fun name => e.name? ≠ some name) ++ e.starts?.toList := by
  induction es with
  | nil =>
      cases started : e.starts? with
      | none => simp [standing, started]
      | some name => simp [standing, started]
  | cons first es ih =>
      simp only [List.cons_append, standing]
      cases first.starts? with
      | none => exact ih
      | some name =>
          simp only [List.any_append, List.any_cons, List.any_nil, Bool.or_false, ih]
          by_cases ended : (es.any fun other => other.name? = some name) = true
          · simp [ended]
          · by_cases ends : e.name? = some name
            · simp [ended, ends]
            · simp [ended, ends]

theorem mem_standing_cons (e : Event) (es : List Event) (name : String) :
    name ∈ standing (e :: es) ↔
      (e.starts? = some name ∧ ∀ other ∈ es, other.name? ≠ some name) ∨ name ∈ standing es := by
  rw [standing]
  cases started : e.starts? with
  | none => simp
  | some n =>
      dsimp only
      by_cases ended : (es.any fun other => other.name? = some n) = true
      · rw [if_pos ended, Option.some.injEq]
        constructor
        · exact Or.inr
        · rintro (⟨rfl, last⟩ | stands)
          · simp only [List.any_eq_true, decide_eq_true_eq] at ended
            obtain ⟨other, member, same⟩ := ended
            exact absurd same (last other member)
          · exact stands
      · have last : ∀ other ∈ es, other.name? ≠ some n := by simpa using ended
        rw [if_neg ended, List.mem_cons, Option.some.injEq]
        constructor
        · rintro (rfl | stands)
          · exact .inl ⟨rfl, last⟩
          · exact .inr stands
        · rintro (⟨rfl, -⟩ | stands)
          · exact .inl rfl
          · exact .inr stands

/-- A listener stands exactly if its start is the last event about its name. -/
theorem mem_standing_iff (es : List Event) (name : String) :
    name ∈ standing es ↔ ∃ before e later, es = before ++ e :: later ∧ e.starts? = some name ∧
      ∀ other ∈ later, other.name? ≠ some name := by
  induction es with
  | nil => simp [standing]
  | cons first es ih =>
      rw [mem_standing_cons, ih]
      constructor
      · rintro (⟨started, last⟩ | ⟨before, e, later, rfl, started, last⟩)
        · exact ⟨[], first, es, rfl, started, last⟩
        · exact ⟨first :: before, e, later, rfl, started, last⟩
      · rintro ⟨before, e, later, split, started, last⟩
        cases before with
        | nil =>
            obtain ⟨rfl, rfl⟩ := List.cons.inj split
            exact .inl ⟨started, last⟩
        | cons _ before =>
            obtain ⟨rfl, rfl⟩ := List.cons.inj split
            exact .inr ⟨before, e, later, rfl, started, last⟩

theorem nodup_standing (es : List Event) : (standing es).Nodup := by
  induction es using List.reverseRecOn with
  | nil => exact List.nodup_nil
  | append_singleton es e ih =>
      rw [standing_concat, List.nodup_append]
      refine ⟨ih.filter _, ?_, ?_⟩
      · cases e.starts? <;> simp
      · intro name old name' new same
        subst same
        have about := Event.name?_of_starts? (Option.mem_toList.mp new)
        simp [about] at old

/-- Each event about a listener that stands takes it away, and each start adds one. -/
theorem length_standing_concat (es : List Event) (e : Event) :
    (standing (es ++ [e])).length + (if ∃ name ∈ standing es, e.name? = some name then 1 else 0) =
      (standing es).length + (if e.starts?.isSome then 1 else 0) := by
  have starts : e.starts?.toList.length = if e.starts?.isSome then 1 else 0 := by
    cases e.starts? <;> rfl
  rw [standing_concat, List.length_append, starts]
  cases about : e.name? with
  | none => simp
  | some name =>
      have erased : (standing es).filter (fun other => some name ≠ some other) =
          (standing es).erase name := by
        rw [(nodup_standing es).erase_eq_filter]
        refine List.filter_congr fun other _ => ?_
        rw [Bool.eq_iff_iff, bne_iff_ne, decide_eq_true_eq, ne_comm, Ne, Ne, Option.some.injEq]
      rw [erased]
      by_cases stands : name ∈ standing es
      · have some : ∃ other ∈ standing es, Option.some name = Option.some other :=
          ⟨name, stands, rfl⟩
        have long : 0 < (standing es).length := List.length_pos_of_mem stands
        rw [if_pos some, List.length_erase_of_mem stands]
        omega
      · have none : ¬ ∃ other ∈ standing es, Option.some name = Option.some other := by
          rintro ⟨other, member, same⟩
          exact stands (Option.some.inj same ▸ member)
        rw [if_neg none, List.erase_of_not_mem stands]
        omega

/-! ## What an event does -/

variable {o o' : Office} {e : Event} {es : List Event} {name : String}

/-- The listener of that name is counted at the desk. -/
def hasActive (o : Office) (name : String) : Bool := (o.listeners.get? name).any Listener.isActive

/-- The desk after an event: a start is counted, and an active listener that goes is taken off. -/
def deskAfter (o : Office) (e : Event) : SignalDesk :=
  let d := if e.starts?.isSome then o.desk.claim else o.desk
  if e.name?.any o.hasActive then d.release else d

/-- What an event does to the desk and to the listeners. -/
structure Settles (o : Office) (e : Event) (o' : Office) : Prop where
  desk : o'.desk = o.deskAfter e
  active : ∀ name, o'.hasActive name = true ↔
    e.starts? = some name ∨ o.hasActive name = true ∧ e.name? ≠ some name
  distinct : o.listeners.Distinct → o'.listeners.Distinct

theorem desk_dismiss (o : Office) (l : Listener) :
    (o.dismiss l).desk = if l.isActive then o.desk.release else o.desk := by
  unfold dismiss
  split
  · rename_i active
    exact (if_pos active).symm
  · rename_i idle
    exact (if_neg idle).symm

theorem listeners_dismiss (o : Office) (l : Listener) : (o.dismiss l).listeners = o.listeners := by
  unfold dismiss
  split <;> rfl

theorem desk_stop (o : Office) (name : String) :
    (o.stop name).2.desk = if o.hasActive name then o.desk.release else o.desk := by
  unfold stop hasActive
  cases o.listeners.get? name with
  | none => rfl
  | some l => exact desk_dismiss o l

theorem get?_stop (o : Office) (name other : String) :
    (o.stop name).2.listeners.get? other =
      if name = other then (o.listeners.get? other).map fun l => l.stop.2
      else o.listeners.get? other := by
  unfold stop
  cases found : o.listeners.get? name with
  | none =>
      dsimp only
      split
      · rename_i same
        rw [← same, found]
        rfl
      · rfl
  | some l =>
      simp only [Table.get?_put]
      split
      · rename_i same
        rw [← same, found]
        rfl
      · rfl

theorem distinct_stop (o : Office) (name : String) (distinct : o.listeners.Distinct) :
    (o.stop name).2.listeners.Distinct := by
  unfold stop
  cases o.listeners.get? name with
  | none => exact distinct
  | some l => exact Table.distinct_put distinct name _

theorem settles_stop (o : Office) (name : String) : o.Settles (.stop name) (o.stop name).2 where
  desk := desk_stop o name
  active other := by
    rw [hasActive, get?_stop]
    by_cases same : name = other
    · subst same
      cases found : o.listeners.get? name <;>
        simp [Event.starts?, Event.name?, Listener.isActive, Listener.stop]
    · simp [Event.starts?, Event.name?, same, hasActive]
  distinct := distinct_stop o name

theorem settles_drop (o : Office) (name : String) : o.Settles (.drop name) (o.drop name) where
  desk := desk_stop o name
  active other := by
    rw [hasActive, drop, Table.get?_erase]
    by_cases same : name = other
    · simp [Event.starts?, Event.name?, same]
    · simp [Event.starts?, Event.name?, same, hasActive]
  distinct distinct := Table.distinct_erase distinct name

theorem listeners_listen (o : Office) (name : String) (parent : Token) (trigger : Trigger) :
    (o.listen name parent trigger).listeners =
      o.listeners.put name (Listener.start o.tokens parent trigger).1 := by
  cases found : o.listeners.get? name with
  | none => simp [listen, found]
  | some old => simp [listen, found, listeners_dismiss]

theorem settles_listen (o : Office) (name : String) (parent : Token) (trigger : Trigger) :
    o.Settles (.listen name parent trigger) (o.listen name parent trigger) := by
  have started : (Event.listen name parent trigger).starts? =
      if trigger = .signals then some name else none := by
    cases trigger <;> rfl
  have desk : (o.listen name parent trigger).desk =
      o.deskAfter (.listen name parent trigger) := by
    rw [deskAfter, started]
    cases found : o.listeners.get? name with
    | none =>
        by_cases signals : trigger = .signals <;>
          simp [listen, found, signals, Event.name?, hasActive]
    | some old =>
        by_cases signals : trigger = .signals <;>
          simp [listen, found, signals, Event.name?, hasActive, desk_dismiss]
  refine ⟨desk, ?_, ?_⟩
  -- Whatever had the name before is gone, so only the new listener counts under it.
  · intro other
    rw [hasActive, listeners_listen, Table.get?_put, started]
    by_cases same : name = other
    · simp [same, Event.name?, Listener.isActive, Listener.start]
    · simp [same, Event.name?, hasActive]
  · intro distinct
    rw [listeners_listen]
    exact Table.distinct_put distinct name _

/-- Listeners and desk are as they were, and no scope was given out. -/
structure Undisturbed (o o' : Office) : Prop where
  desk : o'.desk = o.desk
  listeners : o'.listeners = o.listeners
  issued : o'.tokens.issued = o.tokens.issued

theorem issued_turn (l : Listener) (ts : Tokens) (complete : Bool) :
    (l.turn ts complete).issued = ts.issued := by
  unfold Listener.turn
  split <;> rfl

theorem undisturbed_turns (o : Office) (ls : List Listener) : o.Undisturbed (ls.foldl
    (fun o l => { o with tokens := l.turn o.tokens (o.isComplete l.trigger) }) o) := by
  induction ls generalizing o with
  | nil => exact ⟨rfl, rfl, rfl⟩
  | cons l ls ih =>
      obtain ⟨desk, listeners, issued⟩ := ih
        { o with tokens := l.turn o.tokens (o.isComplete l.trigger) }
      exact ⟨desk, listeners, issued.trans (issued_turn l _ _)⟩

theorem undisturbed_passes (o : Office) (n : Nat) : o.Undisturbed (Nat.repeat pass n o) := by
  induction n with
  | zero => exact ⟨rfl, rfl, rfl⟩
  | succ n ih =>
      obtain ⟨desk, listeners, issued⟩ :=
        undisturbed_turns (Nat.repeat pass n o) (Nat.repeat pass n o).listeners.values
      exact ⟨desk.trans ih.desk, listeners.trans ih.listeners, issued.trans ih.issued⟩

theorem undisturbed_sleep (o : Office) (millis : Nat) : o.Undisturbed (o.sleep millis) := by
  obtain ⟨desk, listeners, issued⟩ := undisturbed_passes { o with clock := o.clock + millis }
    o.listeners.entries.length
  exact ⟨desk, listeners, issued⟩

theorem undisturbed_cancel (o : Office) (name : String) : o.Undisturbed (o.cancel name) := by
  unfold cancel
  split <;> exact ⟨rfl, rfl, rfl⟩

theorem undisturbed_raise {s : Signal} (happened : o.raise s = some o') : o.Undisturbed o' := by
  have issued (ls : List Listener) (ts : Tokens) :
      (ls.foldl (fun ts l => l.turn ts true) ts).issued = ts.issued := by
    induction ls generalizing ts with
    | nil => rfl
    | cons l ls ih => exact (ih _).trans (issued_turn l ts true)
  unfold raise at happened
  split at happened
  · cases happened
  · cases happened
    exact ⟨rfl, rfl, issued _ _⟩

theorem settles_of_quiet (nobody : e.name? = none) (quiet : o.Undisturbed o') :
    o.Settles e o' := by
  have unstarted : e.starts? = none := by
    cases started : e.starts? with
    | none => rfl
    | some name => rw [Event.name?_of_starts? started] at nobody; cases nobody
  refine ⟨?_, ?_, ?_⟩
  · rw [deskAfter, unstarted, nobody, quiet.desk]
    rfl
  · intro name
    simp [hasActive, quiet.listeners, unstarted, nobody]
  · rw [quiet.listeners]
    exact id

theorem settles_of_after (happened : o.after e = some o') : o.Settles e o' := by
  cases e with
  | listen name parent trigger =>
      cases happened
      exact settles_listen o name parent trigger
  | stop name =>
      cases happened
      exact settles_stop o name
  | drop name =>
      cases happened
      exact settles_drop o name
  | cancel name =>
      cases happened
      exact settles_of_quiet rfl (undisturbed_cancel o name)
  | sleep millis =>
      cases happened
      exact settles_of_quiet rfl (undisturbed_sleep o millis)
  | raise s => exact settles_of_quiet rfl (undisturbed_raise happened)

/-! ## The count -/

theorem sound_deskAfter (e : Event) (sound : o.desk.Sound) : (o.deskAfter e).Sound := by
  have counted : (if e.starts?.isSome then o.desk.claim else o.desk).Sound := by
    split
    · exact o.desk.sound_claim
    · exact sound
  unfold deskAfter
  dsimp only
  split
  · exact SignalDesk.sound_release counted
  · exact counted

theorem installed_deskAfter (o : Office) (e : Event) :
    (o.deskAfter e).installed = (o.desk.installed || e.starts?.isSome) := by
  have kept (d : SignalDesk) : d.release.installed = d.installed := by
    unfold SignalDesk.release
    split <;> rfl
  unfold deskAfter
  cases e.starts?.isSome <;> cases e.name?.any o.hasActive <;> simp [kept, SignalDesk.claim]

theorem listeners_deskAfter (e : Event) (sound : o.desk.Sound)
    (some : e.name?.any o.hasActive = true → 0 < o.desk.listeners) :
    (o.deskAfter e).listeners + (if e.name?.any o.hasActive then 1 else 0) =
      o.desk.listeners + (if e.starts?.isSome then 1 else 0) := by
  unfold deskAfter
  cases started : e.starts?.isSome with
  | false =>
      cases gone : e.name?.any o.hasActive with
      | false => simp
      | true =>
          have positive := some gone
          simp only [if_true, Bool.false_eq_true, if_false, SignalDesk.listeners_release sound]
          omega
  | true =>
      cases e.name?.any o.hasActive with
      | false => simp
      | true => simp [SignalDesk.listeners_release o.desk.sound_claim]

/-- The desk and the listeners tell what the history tells. -/
structure Tallies (es : List Event) (o : Office) : Prop where
  sound : o.desk.Sound
  counted : o.desk.listeners = (standing es).length
  installed : o.desk.installed = true ↔ ∃ e ∈ es, e.starts?.isSome = true
  active : ∀ name, name ∈ standing es ↔ o.hasActive name = true
  distinct : o.listeners.Distinct

namespace Tallies

theorem empty : Tallies [] {} where
  sound := rfl
  counted := rfl
  installed := by simp
  active name := by simp [standing, hasActive]
  distinct := Table.distinct_empty

/-- An event takes a listener off the desk exactly if it is about one that stands. -/
theorem any_hasActive_iff (tallies : Tallies es o) (e : Event) :
    e.name?.any o.hasActive = true ↔ ∃ name ∈ standing es, e.name? = some name := by
  rw [Option.any_eq_true]
  constructor
  · rintro ⟨name, about, active⟩
    exact ⟨name, (tallies.active name).mpr active, about⟩
  · rintro ⟨name, stands, about⟩
    exact ⟨name, about, (tallies.active name).mp stands⟩

theorem listeners_after (tallies : Tallies es o) (settles : o.Settles e o') :
    o'.desk.listeners + (if ∃ name ∈ standing es, e.name? = some name then 1 else 0) =
      o.desk.listeners + (if e.starts?.isSome then 1 else 0) := by
  have counted := listeners_deskAfter e tallies.sound fun gone => by
    obtain ⟨name, stands, -⟩ := (tallies.any_hasActive_iff e).mp gone
    rw [tallies.counted]
    exact List.length_pos_of_mem stands
  rw [← settles.desk] at counted
  simpa only [tallies.any_hasActive_iff] using counted

theorem step (tallies : Tallies es o) (settles : o.Settles e o') : Tallies (es ++ [e]) o' where
  sound := settles.desk ▸ sound_deskAfter e tallies.sound
  counted := by
    have desk := tallies.listeners_after settles
    have history := length_standing_concat es e
    rw [tallies.counted] at desk
    omega
  installed := by
    rw [settles.desk, installed_deskAfter, Bool.or_eq_true, tallies.installed]
    simp [or_and_right, exists_or]
  active name := by
    rw [standing_concat, List.mem_append, List.mem_filter, settles.active, tallies.active]
    simp [or_comm]
  distinct := settles.distinct tallies.distinct

end Tallies

/-- The office before the last event of a history. -/
theorem exists_before (run : o.play (es ++ [e]) = some o') :
    ∃ before, o.play es = some before ∧ before.after e = some o' := by
  rw [play, List.foldlM_append] at run
  obtain ⟨before, ran, last⟩ := Option.bind_eq_some_iff.mp run
  exact ⟨before, ran, by simpa using last⟩

theorem tallies_of_play (run : ({} : Office).play es = some o) : Tallies es o := by
  -- On the last event: what it does to the count depends on what stands before it.
  induction es using List.reverseRecOn generalizing o with
  | nil =>
      cases run
      exact Tallies.empty
  | append_singleton es e ih =>
      obtain ⟨before, ran, happened⟩ := exists_before run
      exact (ih ran).step (settles_of_after happened)

/-! ## Signals -/

theorem isCancelled_turns (ls : List Listener) (ts : Tokens) (t : Token) :
    (ls.foldl (fun ts l => l.turn ts true) ts).isCancelled t = true ↔
      ts.isCancelled t = true ∨ ∃ l ∈ ls, l.listening = true ∧ l.scope.number ∈ t.lineage := by
  induction ls generalizing ts with
  | nil => simp
  | cons l ls ih =>
      rw [List.foldl_cons, ih, Listener.turn, Bool.and_true]
      cases listening : l.listening with
      | false => simp [listening]
      | true => simp [listening, Tokens.isCancelled_cancel_iff, or_assoc]

theorem mem_active_iff (tallies : Tallies es o) (l : Listener) :
    l ∈ o.active ↔ ∃ name ∈ standing es, o.listeners.get? name = some l := by
  unfold active
  rw [List.mem_filter, Table.mem_values_iff tallies.distinct]
  constructor
  · rintro ⟨⟨name, found⟩, listens⟩
    refine ⟨name, (tallies.active name).mpr ?_, found⟩
    rw [hasActive, found]
    exact listens
  · rintro ⟨name, stands, found⟩
    have listens := (tallies.active name).mp stands
    rw [hasActive, found] at listens
    exact ⟨⟨name, found⟩, listens⟩

/-- No two listeners share a scope. -/
structure Numbered (o : Office) : Prop where
  issued : ∀ name l, o.listeners.get? name = some l → l.scope.number < o.tokens.issued
  apart : ∀ name name' l l', o.listeners.get? name = some l → o.listeners.get? name' = some l' →
    l.scope.number = l'.scope.number → name = name'

namespace Numbered

/-- Fewer listeners, stopped or not, and more scopes. -/
theorem weaken (numbered : o.Numbered) (grown : o.tokens.issued ≤ o'.tokens.issued)
    (older : ∀ name l, o'.listeners.get? name = some l →
      ∃ l', o.listeners.get? name = some l' ∧ l'.scope = l.scope) : o'.Numbered where
  issued name l found := by
    obtain ⟨l', earlier, same⟩ := older name l found
    exact Nat.lt_of_lt_of_le (same ▸ numbered.issued name l' earlier) grown
  apart name name' l l' found found' shared := by
    obtain ⟨m, earlier, same⟩ := older name l found
    obtain ⟨m', earlier', same'⟩ := older name' l' found'
    refine numbered.apart name name' m m' earlier earlier' ?_
    rw [same, same', shared]

theorem of_undisturbed (numbered : o.Numbered) (quiet : o.Undisturbed o') : o'.Numbered := by
  refine numbered.weaken (Nat.le_of_eq quiet.issued.symm) fun name l found => ?_
  rw [quiet.listeners] at found
  exact ⟨l, found, rfl⟩

theorem listen (numbered : o.Numbered) (name : String) (parent : Token) (trigger : Trigger) :
    (o.listen name parent trigger).Numbered := by
  have issued : (o.listen name parent trigger).tokens.issued = o.tokens.issued + 1 := by
    cases found : o.listeners.get? name with
    | none => simp [Office.listen, found, Listener.start, Tokens.child]
    | some old =>
        simp only [Office.listen, found, dismiss]
        split <;> rfl
  have cases (other : String) (l : Listener)
      (found : (o.listen name parent trigger).listeners.get? other = some l) :
      (other = name ∧ l.scope.number = o.tokens.issued) ∨ o.listeners.get? other = some l := by
    rw [listeners_listen, Table.get?_put] at found
    split at found
    · rename_i same
      cases found
      exact .inl ⟨same.symm, rfl⟩
    · exact .inr found
  constructor
  · intro other l found
    rw [issued]
    rcases cases other l found with ⟨-, new⟩ | old
    · omega
    · exact Nat.lt_succ_of_lt (numbered.issued other l old)
  · intro one two l m first second shared
    rcases cases one l first with ⟨rfl, new⟩ | old
    · rcases cases two m second with ⟨rfl, -⟩ | older
      · rfl
      · have below := numbered.issued two m older
        omega
    · rcases cases two m second with ⟨rfl, new⟩ | older
      · have below := numbered.issued one l old
        omega
      · exact numbered.apart one two l m old older shared

theorem stop (numbered : o.Numbered) (name : String) : (o.stop name).2.Numbered := by
  have issued : (o.stop name).2.tokens.issued = o.tokens.issued := by
    unfold Office.stop
    cases o.listeners.get? name with
    | none => rfl
    | some l =>
        simp only [dismiss]
        split <;> rfl
  refine numbered.weaken (Nat.le_of_eq issued.symm) fun other l found => ?_
  rw [get?_stop] at found
  split at found
  · obtain ⟨l', earlier, rfl⟩ := Option.map_eq_some_iff.mp found
    exact ⟨l', earlier, rfl⟩
  · exact ⟨l, found, rfl⟩

theorem drop (numbered : o.Numbered) (name : String) : (o.drop name).Numbered := by
  refine (numbered.stop name).weaken (Nat.le_refl _) fun other l found => ?_
  unfold Office.drop at found
  rw [Table.get?_erase] at found
  split at found
  · cases found
  · rename_i different
    refine ⟨l, ?_, rfl⟩
    rw [get?_stop, if_neg different]
    exact found

theorem after (numbered : o.Numbered) (happened : o.after e = some o') : o'.Numbered := by
  cases e with
  | listen name parent trigger =>
      cases happened
      exact numbered.listen name parent trigger
  | stop name =>
      cases happened
      exact numbered.stop name
  | drop name =>
      cases happened
      exact numbered.drop name
  | cancel name =>
      cases happened
      exact numbered.of_undisturbed (undisturbed_cancel o name)
  | sleep millis =>
      cases happened
      exact numbered.of_undisturbed (undisturbed_sleep o millis)
  | raise s => exact numbered.of_undisturbed (undisturbed_raise happened)

end Numbered

theorem numbered_of_play (run : ({} : Office).play es = some o) : o.Numbered := by
  induction es using List.reverseRecOn generalizing o with
  | nil =>
      cases run
      exact ⟨nofun, nofun⟩
  | append_singleton es e ih =>
      obtain ⟨before, ran, happened⟩ := exists_before run
      exact (ih ran).after happened

theorem request_iff_standing_nil {s : Signal} (tallies : Tallies es o)
    (request : s.isRequest = true) : o.raise s = none ↔ standing es = [] := by
  have fatal := SignalDesk.isFatal_request tallies.sound request
  rw [tallies.counted, List.length_eq_zero_iff] at fatal
  rw [← fatal, raise]
  split
  · rename_i ends
    exact iff_of_true rfl ends
  · rename_i survives
    exact iff_of_false nofun survives

theorem isCancelled_raise {s : Signal} (tallies : Tallies es o) (happened : o.raise s = some o')
    (t : Token) : o'.tokens.isCancelled t = true ↔ o.tokens.isCancelled t = true ∨
      ∃ name ∈ standing es, ∃ l, o.listeners.get? name = some l ∧ l.scope.number ∈ t.lineage := by
  have listens (l : Listener) (member : l ∈ o.active) : l.listening = true := by
    have active := (List.mem_filter.mp member).2
    exact (Bool.and_eq_true_iff.mp active).1
  have tokens : o'.tokens = o.active.foldl (fun tokens l => l.turn tokens true) o.tokens := by
    unfold raise at happened
    split at happened
    · cases happened
    · cases happened
      rfl
  rw [tokens, isCancelled_turns]
  refine or_congr_right ⟨?_, ?_⟩
  · rintro ⟨l, member, -, inside⟩
    obtain ⟨name, stands, found⟩ := (mem_active_iff tallies l).mp member
    exact ⟨name, stands, l, found, inside⟩
  · rintro ⟨name, stands, l, found, inside⟩
    have member := (mem_active_iff tallies l).mpr ⟨name, stands, found⟩
    exact ⟨l, member, listens l member, inside⟩

/-- What the desk knows behind a history, and what a request to terminate then does. -/
structure Counts (es : List Event) (o : Office) : Prop where
  /-- A listener stands if its start is the last event about it. -/
  stands : ∀ name, name ∈ standing es ↔ ∃ before e later, es = before ++ e :: later ∧
    e.starts? = some name ∧ ∀ other ∈ later, other.name? ≠ some name
  active : ∀ name, name ∈ standing es ↔
    ∃ l, o.listeners.get? name = some l ∧ l.listening = true ∧ l.trigger = .signals
  once : (standing es).Nodup
  counted : o.desk.listeners = (standing es).length
  unused : (∀ e ∈ es, e.starts? = none) → o.desk = {}
  armed : (∃ e ∈ es, e.starts?.isSome = true) → (o.desk.armed = true ↔ standing es = [])
  /-- An event takes one listener off the desk exactly if it is about one that stands. -/
  released : ∀ e o', o.after e = some o' →
    o'.desk.listeners + (if ∃ name ∈ standing es, e.name? = some name then 1 else 0) =
      o.desk.listeners + (if e.starts?.isSome then 1 else 0)
  /-- Listeners that do not wait for signals leave the desk alone. -/
  indifferent : ∀ e o', o.after e = some o' → e.starts? = none →
    (∀ name ∈ standing es, e.name? ≠ some name) → o'.desk = o.desk
  fatal : ∀ s : Signal, s.isRequest = true → (o.raise s = none ↔ standing es = [])
  reached : ∀ s o', o.raise s = some o' → o'.desk = o.desk ∧ o'.listeners = o.listeners ∧
    ∀ t, (o'.tokens.isCancelled t = true ↔ o.tokens.isCancelled t = true ∨
      ∃ name ∈ standing es, ∃ l, o.listeners.get? name = some l ∧ l.scope.number ∈ t.lineage)
  /-- Unless it was started inside the scope of a listener that stands, only a listener that stands
  itself is asked to terminate. -/
  own : ∀ s o', o.raise s = some o' → ∀ name l, o.listeners.get? name = some l →
    (∀ other ∈ standing es, ∀ m, o.listeners.get? other = some m →
      m.scope.number ∉ l.scope.around) →
    (l.isRequested o'.tokens = true ↔ l.isRequested o.tokens = true ∨ name ∈ standing es)

/-- However listeners are started, stopped and dropped, the desk counts those for signals that
stand, and a request to terminate ends the process exactly if there are none. -/
theorem counts_standing (run : ({} : Office).play es = some o) : Counts es o := by
  have tallies := tallies_of_play run
  have numbered := numbered_of_play run
  have unsettled (e : Event) (o' : Office) (unstarted : e.starts? = none)
      (elsewhere : ∀ name ∈ standing es, e.name? ≠ some name) : o.deskAfter e = o.desk := by
    have kept : ¬ (e.name?.any o.hasActive = true) := by
      rw [tallies.any_hasActive_iff]
      rintro ⟨name, stands, about⟩
      exact elsewhere name stands about
    simp [deskAfter, unstarted, kept]
  refine {
    stands := mem_standing_iff es
    active := ?active
    once := nodup_standing es
    counted := tallies.counted
    unused := ?unused
    armed := ?armed
    released := fun e o' happened => tallies.listeners_after (settles_of_after happened)
    indifferent := ?indifferent
    fatal := fun s request => request_iff_standing_nil tallies request
    reached := ?reached
    own := ?own }
  case active =>
    intro name
    rw [tallies.active, hasActive, Option.any_eq_true]
    simp [Listener.isActive]
  case unused =>
    intro unstarted
    have sound := tallies.sound
    have uninstalled : o.desk.installed = false := by
      rw [Bool.eq_false_iff, ne_eq, tallies.installed]
      rintro ⟨e, member, started⟩
      rw [unstarted e member] at started
      cases started
    simpa [SignalDesk.Sound, uninstalled] using sound
  case armed =>
    intro started
    have sound := tallies.sound
    rw [SignalDesk.Sound, if_pos (tallies.installed.mpr started), tallies.counted] at sound
    rw [sound, List.length_eq_zero_iff]
  case indifferent =>
    intro e o' happened unstarted elsewhere
    rw [(settles_of_after happened).desk, unsettled e o' unstarted elsewhere]
  case reached =>
    intro s o' happened
    have quiet := undisturbed_raise happened
    exact ⟨quiet.desk, quiet.listeners, isCancelled_raise tallies happened⟩
  case own =>
    intro s o' happened name l found outside
    rw [Listener.isRequested, isCancelled_raise tallies happened, Listener.isRequested]
    refine or_congr_right ⟨?_, ?_⟩
    -- A scope that reaches the listener is its own or one around it.
    · rintro ⟨other, stands, m, found', inside⟩
      rcases List.mem_cons.mp inside with same | around
      · rwa [numbered.apart name other l m found found' same.symm]
      · exact absurd around (outside other stands m found')
    · intro stands
      exact ⟨name, stands, l, found, List.mem_cons_self ..⟩

/-- Two listeners for signals and one for a token; the first is stopped twice, and then replaced by
one that was never meant to hear a signal. -/
def comingsAndGoings : List Event :=
  [.listen "a" ⟨0, []⟩ .signals, .listen "b" ⟨0, []⟩ .signals, .listen "c" ⟨0, []⟩ (.token ⟨0, []⟩),
    .stop "a", .stop "a", .raise .term, .listen "a" ⟨0, []⟩ .never, .drop "c", .stop "b", .drop "b"]

def closing : Office := (({} : Office).play comingsAndGoings).getD {}

/-- The last of several listeners for signals to be dropped arms the default action. -/
theorem counts_standing_comingsAndGoings : ({} : Office).play comingsAndGoings = some closing ∧
    closing.desk.listeners = 0 ∧ closing.desk.armed = true ∧ closing.raise .quit = none := by
  have played : ({} : Office).play comingsAndGoings = some closing := rfl
  have counts := counts_standing played
  have nobody : standing comingsAndGoings = [] := by decide
  have armed := (counts.armed ⟨_, List.mem_cons_self .., rfl⟩).mpr nobody
  have counted := counts.counted
  rw [nobody, List.length_nil] at counted
  exact ⟨played, counted, armed, (counts.fatal .quit rfl).mpr nobody⟩

end Office

end LeaderLease
