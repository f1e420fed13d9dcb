import LeaderLease.Proofs.Comparison
import LeaderLease.Proofs.Outcomes

/-!
# Leases that are removed in between

Locks call a server in any order, each over a link of its own, while somebody else removes keys. From
an absent key on, what is stored under it is always an entry that a lock stored, and every event keeps
it, removes it, creates version one or raises the version by one (`Becomes`). So as long as nobody
removes the key its versions only grow, and an update that succeeds for the version that was read
replaces the lease that was read. Versions start again behind a removal: what is replaced then has the
version that was read, but it may be another lease (`Exchange.replaced_eq`).
-/

set_option autoImplicit false

namespace LeaderLease

/-- What may be stored later, if nobody removes a lease: the same entry, or one of a higher version. -/
def Entry.Precedes (e e' : Entry) : Prop := e' = e ∨ e.version < e'.version

theorem Entry.Precedes.trans {e e' e'' : Entry} (first : e.Precedes e') (second : e'.Precedes e'') :
    e.Precedes e'' := by
  rcases first with rfl | first
  · exact second
  · rcases second with rfl | second
    · exact .inr first
    · exact .inr (Nat.lt_trans first second)

theorem Entry.Precedes.version_le {e e' : Entry} (precedes : e.Precedes e') :
    e.version ≤ e'.version := by
  rcases precedes with rfl | higher
  · exact Nat.le_refl _
  · exact Nat.le_of_lt higher

theorem Entry.Precedes.eq_of_version {e e' : Entry} (precedes : e.Precedes e')
    (same : e'.version ≤ e.version) : e' = e :=
  precedes.resolve_right (Nat.not_lt.mpr same)

namespace Redis

/-- What may happen to a server: a lock makes a call, or somebody else removes a key. -/
inductive Event where
  | call (lock : Lock) (link : Link) (call : Call)
  | removal (key : String)

/-- The lease that is written, if one is, can be stored. -/
def Event.IsProper : Event → Prop
  | .call _ _ (.write w) => w.lease.WellFormed
  | .call _ _ .get => True
  | .removal _ => True

instance : (event : Event) → Decidable event.IsProper
  | .call _ _ (.write w) => inferInstanceAs (Decidable w.lease.WellFormed)
  | .call _ _ .get => inferInstanceAs (Decidable True)
  | .removal _ => inferInstanceAs (Decidable True)

namespace Server

def affect (server : Server) : Event → Server
  | .call l link call => (l.perform link server call).2
  | .removal key => { server with data := server.data.erase key }

theorem affect_update (server : Server) (l : Lock) (link : Link) (version : Nat) (lease : Lease) :
    server.affect (.call l link (.write (.update version lease))) =
      (l.update link server version lease).2 := rfl

/-- The server after some events in order. -/
def after (server : Server) (events : List Event) : Server := events.foldl affect server

theorem after_append (server : Server) (events more : List Event) :
    server.after (events ++ more) = (server.after events).after more := List.foldl_append

end Server

/-! ## One key -/

/-- What an event makes of the entry under a key. -/
inductive Becomes (key : String) (event : Event) : Option Entry → Option Entry → Prop
  | kept (held : Option Entry) : Becomes key event held held
  | removed (held : Option Entry) (removal : event = .removal key) : Becomes key event held none
  | created (lease : Lease) : Becomes key event none (some ⟨1, lease⟩)
  | raised (e : Entry) (lease : Lease) : Becomes key event (some e) (some ⟨e.version + 1, lease⟩)

theorem Becomes.precedes {key : String} {event : Event} {e : Entry} {held : Option Entry}
    (becomes : Becomes key event (some e) held) (other : event ≠ .removal key) :
    ∃ e', held = some e' ∧ e.Precedes e' := by
  cases becomes with
  | kept => exact ⟨e, rfl, .inl rfl⟩
  | removed _ removal => exact absurd removal other
  | raised _ lease => exact ⟨_, rfl, .inr (Nat.lt_succ_self _)⟩

/-- Under a key a server holds nothing, or the text of an entry that locks can store in so many
steps. -/
structure Stores (server : Server) (key : String) (steps : Nat) (held : Option Entry) : Prop where
  data : server.data.get? key = held.map fun e => Text.bytes e.encode
  lease : ∀ e, held = some e → e.lease.WellFormed
  version : ∀ e, held = some e → e.version ≤ steps

namespace Stores

variable {server server' : Server} {key : String} {steps : Nat} {held : Option Entry} {e : Entry}

theorem absent (nothing : server.data.get? key = none) : Stores server key 0 none :=
  ⟨nothing, nofun, nofun⟩

theorem keep (stores : Stores server key steps held)
    (same : server'.data.get? key = server.data.get? key) : Stores server' key (steps + 1) held :=
  ⟨same.trans stores.data, stores.lease, fun e there => Nat.le_succ_of_le (stores.version e there)⟩

theorem put (stored : server'.data = server.data.put key (Text.bytes e.encode))
    (lease : e.lease.WellFormed) (version : e.version ≤ steps + 1) :
    Stores server' key (steps + 1) (some e) where
  data := by rw [stored, Table.get?_put_self]; rfl
  lease := by rintro _ ⟨⟩; exact lease
  version := by rintro _ ⟨⟩; exact version

theorem wellFormed (stores : Stores server key steps (some e)) (few : steps < 2 ^ 53) :
    e.WellFormed := by
  have bound := stores.version e rfl
  have room : 2 ^ 53 < Entry.versionLimit := by decide
  exact ⟨by omega, stores.lease e rfl⟩

theorem current? (stores : Stores server key steps held) (few : steps < 2 ^ 53) :
    server.current? key = held := by
  cases held with
  | none =>
      rw [Server.current?, stores.data]
      rfl
  | some e => exact Server.current?_of_encode stores.data (stores.wellFormed few)

/-- Where the script finds a version there is an entry of this version. -/
theorem found (stores : Stores server key steps held) (few : steps < 2 ^ 53)
    {current : List UInt8} {version : Nat} (there : server.data.get? key = some current)
    (found : server.compare current version = .ok true) :
    ∃ e, held = some e ∧ e.version = version := by
  rw [stores.data] at there
  cases held with
  | none => cases there
  | some e =>
      have bound := stores.version e rfl
      cases there
      have wellFormed := stores.wellFormed few
      rw [server.compare_of_encode wellFormed, Script.compare_encode wellFormed (by omega)] at found
      exact ⟨e, rfl, of_decide_eq_true (Except.ok.inj found)⟩

/-- A lock stores its first version, or the version behind the one that is stored. -/
theorem of_takes (stores : Stores server key steps held) (few : steps < 2 ^ 53)
    (takes : server.Takes key e) (lease : e.lease.WellFormed) (event : Event)
    (stored : server'.data = server.data.put key (Text.bytes e.encode)) :
    Becomes key event held (some e) ∧ Stores server' key (steps + 1) (some e) := by
  obtain ⟨version, written⟩ := e
  rcases takes with ⟨nothing, rfl⟩ | ⟨current, expected, there, found, rfl⟩
  · cases held with
    | none => exact ⟨.created written, put stored lease (Nat.le_add_left 1 steps)⟩
    | some e =>
        rw [stores.data] at nothing
        cases nothing
  · obtain ⟨e, rfl, rfl⟩ := stores.found few there found
    exact ⟨.raised e written, put stored lease (Nat.succ_le_succ (stores.version e rfl))⟩

/-- An event makes of the entry what it may make of it, and locks can still have stored it. -/
theorem affect (stores : Stores server key steps held) (few : steps < 2 ^ 53) {event : Event}
    (proper : event.IsProper) :
    ∃ held', Becomes key event held held' ∧ Stores (server.affect event) key (steps + 1) held' := by
  cases event with
  | removal k =>
      by_cases same : k = key
      · subst same
        refine ⟨none, .removed held rfl, ?_, nofun, nofun⟩
        exact (server.data.get?_erase k k).trans (if_pos rfl)
      · exact ⟨held, .kept held, stores.keep ((server.data.get?_erase k key).trans (if_neg same))⟩
  | call l link call =>
      rcases l.perform_cases link server call with same | ⟨w, e, rfl, lease, takes, stored⟩
      · exact ⟨held, .kept held, stores.keep (congrArg (Table.get? · key) same)⟩
      · by_cases same : l.key = key
        · subst same
          exact ⟨some e, stores.of_takes few takes (by rw [lease]; exact proper) _ stored⟩
        · refine ⟨held, .kept held, stores.keep ?_⟩
          exact (congrArg (Table.get? · key) stored).trans (Table.get?_put_of_ne _ _ same)

/-- So it is after any events, and without a removal the versions only grow. -/
theorem after {events : List Event} (stores : Stores server key steps held)
    (few : steps + events.length ≤ 2 ^ 53) (proper : ∀ event ∈ events, event.IsProper) :
    ∃ held', Stores (server.after events) key (steps + events.length) held' ∧
      ∀ e, held = some e → .removal key ∉ events → ∃ e', held' = some e' ∧ e.Precedes e' := by
  induction events generalizing server steps held with
  | nil => exact ⟨held, stores, fun e there _ => ⟨e, there, .inl rfl⟩⟩
  | cons event events ih =>
      rw [List.length_cons] at few
      obtain ⟨between, becomes, next⟩ := stores.affect (by omega) (proper event List.mem_cons_self)
      obtain ⟨held', last, grows⟩ := ih next (by omega)
        fun event member => proper event (List.mem_cons_of_mem _ member)
      refine ⟨held', ?_, ?_⟩
      · rw [List.length_cons, Nat.add_comm events.length 1, ← Nat.add_assoc]
        exact last
      · rintro e rfl none
        rw [List.mem_cons, not_or] at none
        obtain ⟨e', rfl, first⟩ := becomes.precedes (Ne.symm none.1)
        obtain ⟨e'', rfl, second⟩ := grows e' rfl none.2
        exact ⟨e'', rfl, first.trans second⟩

end Stores

/-! ## Reading and replacing -/

/-- A lock reads a lease, and later writes another one for the version that it read. -/
structure Exchange where
  lock : Lock
  start : Server
  /-- What happens before the lease is read. -/
  earlier : List Event
  reading : Link
  /-- What happens between the get and the update. -/
  between : List Event
  writing : Link
  lease : Lease

namespace Exchange

def read (x : Exchange) : ReadAnswer × Server := x.lock.get x.reading (x.start.after x.earlier)

/-- The server after a part of what happens in between. -/
def during (x : Exchange) (part : List Event) : Server := x.read.2.after part

def write (x : Exchange) (e : Entry) : WriteAnswer × Server :=
  x.lock.update x.writing (x.during x.between) e.version x.lease

def steps (x : Exchange) : Nat := x.earlier.length + x.between.length + 2

/-- What is stored immediately before the update. -/
def replaced (x : Exchange) : Option Entry := (x.during x.between).current? x.lock.key

/-- The lease that was read stays there until the update. -/
def Untouched (x : Exchange) (e : Entry) : Prop :=
  ∀ part, part <+: x.between → (x.during part).current? x.lock.key = some e

variable {x : Exchange} {e e' : Entry}

theorem stores_read (absent : x.start.data.get? x.lock.key = none)
    (proper : ∀ event ∈ x.earlier, event.IsProper) (few : x.steps < 2 ^ 53)
    (read : x.read.1 = .ok (some e)) :
    Stores x.read.2 x.lock.key x.earlier.length (some e) := by
  rw [steps] at few
  obtain ⟨held, stores, -⟩ := (Stores.absent absent).after (by omega) proper
  obtain ⟨same, current⟩ := x.lock.get_cases x.reading (x.start.after x.earlier)
  rw [Nat.zero_add] at stores
  obtain rfl : held = some e := (stores.current? (by omega)).symm.trans (current e read)
  rw [Exchange.read, same]
  exact stores

/-- An update succeeds only where a lease of its version is stored. -/
theorem found_of_written {steps : Nat} {held : Option Entry}
    (stores : Stores (x.during x.between) x.lock.key steps held) (few : steps < 2 ^ 53)
    (written : (x.write e).1 = .ok e') : ∃ current, held = some current ∧
      current.version = e.version := by
  rcases x.lock.update_cases x.writing (x.during x.between) e.version x.lease with
    ⟨-, -, ⟨current, there, found⟩, -⟩ | ⟨⟨reason, failed⟩, -⟩
  · exact stores.found few there found
  · rw [write, failed] at written
    cases written

theorem not_untouched_of_removal (removed : .removal x.lock.key ∈ x.between) : ¬ x.Untouched e := by
  intro untouched
  obtain ⟨front, back, split⟩ := List.append_of_mem removed
  have there := untouched (front ++ [.removal x.lock.key])
    ⟨back, by rw [split, List.append_assoc, List.singleton_append]⟩
  have nothing : (x.during (front ++ [.removal x.lock.key])).data.get? x.lock.key = none := by
    rw [during, Server.after_append]
    exact (Table.get?_erase _ _ _).trans (if_pos rfl)
  rw [Server.current?, nothing] at there
  cases there

theorem untouched_of_written {steps : Nat} (stores : Stores x.read.2 x.lock.key steps (some e))
    (few : steps + x.between.length < 2 ^ 53) (proper : ∀ event ∈ x.between, event.IsProper)
    (written : (x.write e).1 = .ok e') (none : .removal x.lock.key ∉ x.between) :
    x.Untouched e := by
  rintro part ⟨rest, split⟩
  rw [← split] at proper none
  have lengths := congrArg List.length split
  rw [List.length_append] at lengths
  rw [List.mem_append, not_or] at none
  obtain ⟨_, storesPart, before⟩ := stores.after (by omega)
    fun event member => proper event (List.mem_append_left _ member)
  obtain ⟨e', rfl, first⟩ := before e rfl none.1
  obtain ⟨_, storesAll, behind⟩ := storesPart.after (by omega)
    fun event member => proper event (List.mem_append_right _ member)
  obtain ⟨e'', rfl, second⟩ := behind e' rfl none.2
  rw [← Server.after_append, split] at storesAll
  -- At the end the script finds the version that was read, so that it was not exceeded before.
  obtain ⟨_, ⟨⟩, version⟩ := found_of_written storesAll (by omega) written
  have same : e' = e := first.eq_of_version (Nat.le_trans second.version_le (Nat.le_of_eq version))
  rw [during, storesPart.current? (by omega), same]

/-- If the update of a lock for the version that it read succeeds, and nobody has removed the key in
between, then it replaces the lease that was read. The lease has been there all the time exactly if
nobody has removed the key. In any case it is a lease of this version that is replaced. -/
theorem replaced_eq (absent : x.start.data.get? x.lock.key = none)
    (proper : ∀ event ∈ x.earlier ++ x.between, event.IsProper) (few : x.steps < 2 ^ 53)
    (read : x.read.1 = .ok (some e)) (written : (x.write e).1 = .ok e') :
    (.removal x.lock.key ∉ x.between → x.replaced = some e) ∧
      (x.Untouched e ↔ .removal x.lock.key ∉ x.between) ∧
      ∃ lease, x.replaced = some ⟨e.version, lease⟩ := by
  have stores := stores_read absent
    (fun event member => proper event (List.mem_append_left _ member)) few read
  have proper : ∀ event ∈ x.between, event.IsProper :=
    fun event member => proper event (List.mem_append_right _ member)
  rw [steps] at few
  have kept := untouched_of_written stores (by omega) proper written
  obtain ⟨_, storesAll, -⟩ := stores.after (by omega) proper
  obtain ⟨⟨_, lease⟩, rfl, rfl⟩ := found_of_written storesAll (by omega) written
  exact ⟨fun none => kept none _ (List.prefix_refl _),
    ⟨fun untouched removed => not_untouched_of_removal removed untouched, kept⟩,
    lease, storesAll.current? (by omega)⟩

def contender (identity : String) : Lock := ⟨"test", "lease", identity, .ofSeconds 5⟩

/-- The first version of a lease. -/
def first (holder : String) : Entry :=
  ⟨1, holder, .ofSeconds 10, .ofUnix 1704067200 0, .ofUnix 1704067200 0, 0⟩

theorem first_wellFormed (holder : String) : (first holder).WellFormed :=
  ⟨(by decide : 1 < Entry.versionLimit), (by decide : (first "").lease.WellFormed)⟩

/-- A lock creates a lease, reads it and renews it, whatever happens in between. -/
def renewal (between : List Event) : Exchange where
  lock := contender "a"
  start := {}
  earlier := [.call (contender "a") {} (.write (.create (first "a").lease))]
  reading := {}
  between
  writing := {}
  lease := (first "a").lease

/-- A server where the lease was created. -/
def created (holder : String) : Server := (contender "a").holding (first holder).encode

theorem renewal_read (between : List Event) :
    (renewal between).read = (.ok (some (first "a")), created "a") :=
  Lock.get_of_encode (Table.get?_put_self _ _ _) (first_wellFormed "a")

theorem renewal_write {between : List Event} {holder : String}
    (held : ((renewal between).during between).data.get? (contender "a").key =
      some (Text.bytes (first holder).encode)) :
    ((renewal between).write (first "a")).1 = .ok ⟨2, (first "a").lease⟩ := by
  have small : (first holder).version < 2 ^ 53 := (by decide : 1 < 2 ^ 53)
  have compared := Script.compare_encode (first_wellFormed holder) small 1
  have room : 1 < Entry.versionLimit - 1 := by decide
  have updated := Lock.update_eq held room (first "a").lease
  rw [Server.compare_of_encode _ (first_wellFormed holder), compared] at updated
  exact congrArg Prod.fst updated

/-- In between, another lock tries to replace the lease and somebody removes another one. -/
def leftThere : Exchange :=
  renewal [.call (contender "b") {} (.write (.update 7 (first "b").lease)), .removal "other"]

theorem leftThere_held : (leftThere.during leftThere.between).data.get? (contender "a").key =
    some (Text.bytes (first "a").encode) := by
  have compared := Script.compare_encode (first_wellFormed "a") (by decide) 7
  have room : 7 < Entry.versionLimit - 1 := by decide
  have held : (created "a").data.get? (contender "b").key =
      some (Text.bytes (first "a").encode) := Table.get?_put_self _ _ _
  have after : (leftThere.during leftThere.between).data = (created "a").data.erase "other" := by
    rw [during, leftThere, renewal_read, renewal, Server.after, List.foldl_cons,
      Server.affect_update, Lock.update_eq held room,
      Server.compare_of_encode _ (first_wellFormed "a"), compared]
    rfl
  rw [after, Table.get?_erase, if_neg (by decide)]
  exact Table.get?_put_self _ _ _

theorem replaced_eq_leftThere :
    leftThere.start.data.get? leftThere.lock.key = none ∧
      (∀ event ∈ leftThere.earlier ++ leftThere.between, event.IsProper) ∧
      leftThere.steps < 2 ^ 53 ∧ leftThere.read.1 = .ok (some (first "a")) ∧
      (leftThere.write (first "a")).1 = .ok ⟨2, (first "a").lease⟩ ∧
      (.removal leftThere.lock.key ∉ leftThere.between →
        leftThere.replaced = some (first "a")) ∧
      (leftThere.Untouched (first "a") ↔ .removal leftThere.lock.key ∉ leftThere.between) ∧
      ∃ lease, leftThere.replaced = some ⟨1, lease⟩ := by
  have absent : leftThere.start.data.get? leftThere.lock.key = none := rfl
  have proper : ∀ event ∈ leftThere.earlier ++ leftThere.between, event.IsProper := by decide
  have few : leftThere.steps < 2 ^ 53 := by decide
  have read : leftThere.read.1 = .ok (some (first "a")) := congrArg Prod.fst (renewal_read _)
  have written := renewal_write leftThere_held
  exact ⟨absent, proper, few, read, written, replaced_eq absent proper few read written⟩

/-- In between, somebody removes the lease and another lock creates its own. -/
def createdAgain : Exchange :=
  renewal [.removal (contender "a").key,
    .call (contender "b") {} (.write (.create (first "b").lease))]

theorem createdAgain_held : (createdAgain.during createdAgain.between).data.get?
    (contender "a").key = some (Text.bytes (first "b").encode) := by
  have erased : ((created "a").data.erase (contender "a").key).get? (contender "b").key = none :=
    (Table.get?_erase _ _ _).trans (if_pos rfl)
  have after : (createdAgain.during createdAgain.between).data = ((contender "b").create {}
      { data := (created "a").data.erase (contender "a").key } (first "b").lease).2.data := by
    rw [during, createdAgain, renewal_read]
    rfl
  rw [after, Lock.create_eq erased]
  exact Table.get?_put_self _ _ _

/-- The first version of the other lease is taken for the one that was read. -/
theorem createdAgain_replaces_other :
    createdAgain.start.data.get? createdAgain.lock.key = none ∧
      (∀ event ∈ createdAgain.earlier ++ createdAgain.between, event.IsProper) ∧
      createdAgain.steps < 2 ^ 53 ∧ createdAgain.read.1 = .ok (some (first "a")) ∧
      (createdAgain.write (first "a")).1 = .ok ⟨2, (first "a").lease⟩ ∧
      createdAgain.replaced = some (first "b") ∧ createdAgain.replaced ≠ some (first "a") := by
  have absent : createdAgain.start.data.get? createdAgain.lock.key = none := rfl
  have proper : ∀ event ∈ createdAgain.earlier ++ createdAgain.between, event.IsProper := by decide
  have few : createdAgain.steps < 2 ^ 53 := by decide
  have read : createdAgain.read.1 = .ok (some (first "a")) := congrArg Prod.fst (renewal_read _)
  have written := renewal_write createdAgain_held
  have replaced : createdAgain.replaced = some (first "b") :=
    Server.current?_of_encode createdAgain_held (first_wellFormed "b")
  have other : first "b" ≠ first "a" := by decide
  refine ⟨absent, proper, few, read, written, replaced, ?_⟩
  rw [replaced]
  exact fun same => other (Option.some.inj same)

end Exchange

end Redis

end LeaderLease
