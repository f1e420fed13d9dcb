import LeaderLease.Proofs.Agreement
import LeaderLease.Proofs.Neighbours
import LeaderLease.Proofs.Outcomes

/-!
# What an update compares

A get reads the version of a lease, and an update is for a version. `SwapsExactly` says that the two
go together: an update replaces the lease for the version that is read and is refused for every other
one. The server compares versions as binary64 numbers, and finds them in objects only. So this holds
for the versions that no other one is rounded to, if they stand in an object (`swapsExactly_iff`).
-/

set_option autoImplicit false

namespace LeaderLease

namespace Redis

namespace Script

/-- The script can read what is stored, and it is an object. -/
def ReadsObject (stored : List UInt8) : Prop := ∃ members, decode stored = some (.object members)

/-- The script can read what is stored, and it is a list. -/
def ReadsList (stored : List UInt8) : Prop := ∃ items, decode stored = some (.array items)

variable {stored : List UInt8} {e : Entry}

theorem not_readsObject_of_list (list : ReadsList stored) : ¬ ReadsObject stored := by
  rintro ⟨members, object⟩
  obtain ⟨items, list⟩ := list
  rw [list] at object
  cases object

/-- What is read as an entry is an object in which the script finds the version of the entry, or a
list, in which it finds none, or it cannot be read by the script. -/
theorem compare_cases {text : String} (encoded : Text.ofBytes? stored = some text)
    (found : Entry.decode? text = some e) :
    (ReadsObject stored ∧ ∀ expected,
      compare stored expected = .ok ((Binary64.ofInt e.version).same (.ofInt expected))) ∨
    (ReadsList stored ∧ ∀ expected, compare stored expected = .ok false) ∨
    (¬ ReadsObject stored ∧ ¬ ReadsList stored ∧
      ∀ expected, ∃ reason, compare stored expected = .error reason) := by
  obtain ⟨j, document, found⟩ := Option.bind_eq_some_iff.mp found
  have decoded := decode_of_read encoded document
  by_cases readable : isReadable nestingLimit j = true
  · rw [if_pos readable] at decoded
    rcases Entry.object_or_list found with ⟨members, rfl⟩ | ⟨items, rfl⟩
    · exact .inl ⟨⟨members, decoded⟩, compare_object decoded found⟩
    · exact .inr (.inl ⟨⟨items, decoded⟩, compare_list decoded⟩)
  · rw [if_neg readable] at decoded
    have nothing : ∀ j, decode stored ≠ some j := by
      rw [decoded]
      nofun
    exact .inr (.inr ⟨fun ⟨_, object⟩ => nothing _ object, fun ⟨_, list⟩ => nothing _ list,
      fun expected => ⟨_, by rw [compare, decoded]⟩⟩)

end Script

namespace Lock

variable {l : Lock} {server : Server} {e : Entry}

/-- An update through the lock replaces the entry `e` for the version of `e`, which it raises by one,
and is refused for every other version, leaving the server's data as they are. -/
structure SwapsExactly (l : Lock) (server : Server) (e : Entry) : Prop where
  replaced : e.version < Entry.versionLimit - 1 → ∀ lease, lease.WellFormed →
    (l.update {} server e.version lease).1 = .ok ⟨e.version + 1, lease⟩ ∧
      (l.update {} server e.version lease).2.current? l.key = some ⟨e.version + 1, lease⟩
  refused : ∀ version < Entry.versionLimit - 1, version ≠ e.version → ∀ lease,
    (l.update {} server version lease).1 = .error (.conflict l.describe) ∧
      (l.update {} server version lease).2.data = server.data

/-- The versions that the script tells apart from all others that an update can be for: those of at
most 53 bits, and those of 54 that end in `10`. -/
def IsToldApart (version : Nat) : Prop :=
  version < 2 ^ 53 ∨ version < 2 ^ 54 ∧ version % 4 = 2

instance (version : Nat) : Decidable (IsToldApart version) := inferInstanceAs (Decidable (_ ∨ _))

section

variable {stored : List UInt8}

theorem update_of_same (held : server.data.get? l.key = some stored) {version : Nat}
    (compared : server.compare stored version = .ok true) (room : version < Entry.versionLimit - 1)
    {lease : Lease} (wellFormed : lease.WellFormed) :
    (l.update {} server version lease).1 = .ok ⟨version + 1, lease⟩ ∧
      (l.update {} server version lease).2.current? l.key = some ⟨version + 1, lease⟩ := by
  have fits : Entry.WellFormed ⟨version + 1, lease⟩ := ⟨by dsimp only; omega, wellFormed⟩
  rw [update_eq held room, compared]
  exact ⟨rfl, Server.current?_of_encode (Table.get?_put_self _ _ _) fits⟩

theorem update_of_other (held : server.data.get? l.key = some stored) {version : Nat}
    (compared : server.compare stored version = .ok false)
    (room : version < Entry.versionLimit - 1) (lease : Lease) :
    (l.update {} server version lease).1 = .error (.conflict l.describe) ∧
      (l.update {} server version lease).2.data = server.data := by
  rw [update_eq held room, compared]
  exact ⟨rfl, rfl⟩

theorem swapsExactly_iff_of_object (held : server.data.get? l.key = some stored)
    (wellFormed : e.WellFormed) (compared : ∀ expected,
      server.compare stored expected = .ok ((Binary64.ofInt e.version).same (.ofInt expected))) :
    l.SwapsExactly server e ↔ IsToldApart e.version := by
  have limit : Entry.versionLimit = 2 ^ 64 := rfl
  rw [IsToldApart, ← Binary64.alone_iff wellFormed.1]
  constructor
  · intro exact version room same
    refine Classical.byContradiction fun other => ?_
    have refused := (exact.refused version room (Ne.symm other) e.lease).1
    rw [(update_of_same held (by rw [compared, same]) room wellFormed.2).1] at refused
    cases refused
  · intro alone
    refine ⟨fun room lease proper => ?_, fun version room other lease => ?_⟩
    · have same := (Binary64.same_natCast_iff e.version e.version).mpr rfl
      exact update_of_same held (by rw [compared, same]) room proper
    · have different : (Binary64.ofInt e.version).same (.ofInt version) = false :=
        Bool.eq_false_iff.mpr fun same => other (alone version room same).symm
      exact update_of_other held (by rw [compared, different]) room lease

theorem swapsExactly_iff_of_list (held : server.data.get? l.key = some stored)
    (wellFormed : e.WellFormed) (compared : ∀ expected, server.compare stored expected = .ok false) :
    l.SwapsExactly server e ↔ e.version = Entry.versionLimit - 1 := by
  have inRange := wellFormed.1
  constructor
  · intro exact
    refine Classical.byContradiction fun before => ?_
    have room : e.version < Entry.versionLimit - 1 := by omega
    have replaced := (exact.replaced room e.lease wellFormed.2).1
    rw [(update_of_other held (compared _) room e.lease).1] at replaced
    cases replaced
  · intro last
    exact ⟨fun room => by omega,
      fun version room _ lease => update_of_other held (compared version) room lease⟩

theorem not_swapsExactly_of_error (held : server.data.get? l.key = some stored)
    (compared : ∀ expected, ∃ reason, server.compare stored expected = .error reason) :
    ¬ l.SwapsExactly server e := by
  intro exact
  obtain ⟨version, room, other⟩ :
      ∃ version < Entry.versionLimit - 1, version ≠ e.version := by
    by_cases zero : e.version = 0
    · exact ⟨1, by decide, by omega⟩
    · exact ⟨0, by decide, by omega⟩
  obtain ⟨reason, failed⟩ := compared version
  have refused := (exact.refused version room other e.lease).1
  rw [update_eq held room, failed] at refused
  cases refused

/-- Of a lease that a get reads, updates replace the version that is read and no other one exactly if
it is stored as an object that the script can read, with a version that is told apart from all
others, or as a list with the last version, for which there is no update. -/
theorem swapsExactly_iff (held : server.data.get? l.key = some stored)
    (got : (l.get {} server).1 = .ok (some e)) :
    l.SwapsExactly server e ↔ Script.ReadsObject stored ∧ IsToldApart e.version ∨
      Script.ReadsList stored ∧ e.version = Entry.versionLimit - 1 := by
  obtain ⟨text, encoded, found⟩ : ∃ text, Text.ofBytes? stored = some text ∧
      Entry.decode? text = some e := by
    have entry := (l.get_cases {} server).2 e got
    simpa [Server.current?, held, Option.bind_eq_some_iff] using entry
  have wellFormed := Entry.decode?_wellFormed found
  have cases := Script.compare_cases encoded found
  simp only [← server.compare_of_decode encoded found] at cases
  rcases cases with ⟨object, compared⟩ | ⟨list, compared⟩ | ⟨noObject, noList, compared⟩
  · have noList : ¬ Script.ReadsList stored := fun list => Script.not_readsObject_of_list list object
    rw [swapsExactly_iff_of_object held wellFormed compared]
    simp [object, noList]
  · rw [swapsExactly_iff_of_list held wellFormed compared]
    simp [list, Script.not_readsObject_of_list list]
  · simp [not_swapsExactly_of_error held compared, noObject, noList]

end

def exampleLock : Lock := ⟨"test", "lease", "a", .ofSeconds 5⟩

/-- An entry in an unusual spelling, with a version of 54 bits that ends in `10`. -/
def oddSpelling : String :=
  "\x7b\"record\":[\"x\",[1,0],\"1970-01-01T00:00:00Z\",\"1970-01-01 01:00:00+01:00\",3]," ++
    "\"more\":[[null]],\"\\u0076ersion\" : 9007199254740994\x7d"

def oddlySpelled : Entry :=
  ⟨2 ^ 53 + 2, ⟨"x", .ofSeconds 1, .ofUnix 0 0, .ofUnix 0 0, 3⟩⟩

theorem swapsExactly_iff_oddlySpelled :
    (exampleLock.holding oddSpelling).data.get? exampleLock.key = some (Text.bytes oddSpelling) ∧
      (exampleLock.get {} (exampleLock.holding oddSpelling)).1 = .ok (some oddlySpelled) ∧
      (exampleLock.SwapsExactly (exampleLock.holding oddSpelling) oddlySpelled ↔
        Script.ReadsObject (Text.bytes oddSpelling) ∧ IsToldApart oddlySpelled.version ∨
          Script.ReadsList (Text.bytes oddSpelling) ∧
            oddlySpelled.version = Entry.versionLimit - 1) := by
  have held : (exampleLock.holding oddSpelling).data.get? exampleLock.key =
      some (Text.bytes oddSpelling) := Table.get?_put_self _ _ _
  have read : Entry.decode? oddSpelling = some oddlySpelled := by decide +kernel
  have got : (exampleLock.get {} (exampleLock.holding oddSpelling)).1 = .ok (some oddlySpelled) := by
    simp [get, send_run, Server.run, held, Text.ofBytes?_bytes, read]
  exact ⟨held, got, swapsExactly_iff held got⟩

/-- The first version that is rounded to another one. -/
def nextToPower : Entry :=
  ⟨2 ^ 53 + 1, ⟨"x", .ofSeconds 10, .ofUnix 1704067200 0, .ofUnix 1704067200 0, 0⟩⟩

/-- An update for the version `2 ^ 53` replaces the lease of version `2 ^ 53 + 1`. -/
theorem nextToPower_not_swapsExactly :
    (exampleLock.get {} (exampleLock.holding nextToPower.encode)).1 = .ok (some nextToPower) ∧
      (exampleLock.update {} (exampleLock.holding nextToPower.encode) (2 ^ 53) nextToPower.lease).1 =
        .ok nextToPower ∧
      ¬ exampleLock.SwapsExactly (exampleLock.holding nextToPower.encode) nextToPower := by
  have held : (exampleLock.holding nextToPower.encode).data.get? exampleLock.key =
      some (Text.bytes nextToPower.encode) := Table.get?_put_self _ _ _
  have wellFormed : nextToPower.WellFormed := ⟨by decide, by decide +kernel⟩
  have compared (expected : Nat) :=
    ((exampleLock.holding nextToPower.encode).compare_of_encode wellFormed expected).trans
      (Script.compare_stored wellFormed expected)
  have same : (Binary64.ofInt nextToPower.version).same (.ofInt (2 ^ 53 : Nat)) = true := by decide
  refine ⟨by rw [get_of_encode held wellFormed], ?_, ?_⟩
  · exact (update_of_same held (by rw [compared, same]) (by decide) wellFormed.2).1
  · rw [swapsExactly_iff_of_object held wellFormed compared]
    decide

end Lock

end Redis

end LeaderLease
