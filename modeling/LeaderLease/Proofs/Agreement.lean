import LeaderLease.Proofs.Comparison
import LeaderLease.Proofs.Outcomes
import LeaderLease.Store.Memory
import Mathlib.Data.List.Basic

/-!
# The two backends agree

A server that answers every command stores under the key of a lock the text of what the store in
memory holds for it (`Mirrors`). Every call keeps this and is answered alike, as the text of an entry
is read back and the script finds its version. Both name a lease by its two names, and tell two
leases apart if neither name holds the sign that stands between them. `backends_agree` proves it for
all calls through any locks.
-/

set_option autoImplicit false

namespace LeaderLease

/-- A write of a lease that can be stored, under a version that has a next one. -/
def Write.IsProper : Write → Prop
  | .create l => l.WellFormed
  | .update version l => version < Entry.versionLimit - 1 ∧ l.WellFormed

instance : (w : Write) → Decidable w.IsProper
  | .create l => inferInstanceAs (Decidable l.WellFormed)
  | .update _ _ => inferInstanceAs (Decidable (_ ∧ _))

def Call.IsProper : Call → Prop
  | .get => True
  | .write w => w.IsProper

instance : (call : Call) → Decidable call.IsProper
  | .get => inferInstanceAs (Decidable True)
  | .write w => inferInstanceAs (Decidable w.IsProper)

namespace Redis

/-! ## Keys -/

namespace Lock

/-- Neither name of the lock holds one of the signs that separate them. -/
def IsPlain (l : Lock) : Prop := ∀ c ∈ l.ns.toList ++ l.name.toList, c ≠ '/' ∧ c ≠ ':'

-- By the characters of the names: there is an instance that goes through all characters too.
instance (l : Lock) : Decidable l.IsPlain := List.decidableBAll (fun c => c ≠ '/' ∧ c ≠ ':') _

variable {l l' : Lock}

theorem names_of_joined (separator : Char) (ns : separator ∉ l.ns.toList)
    (name : separator ∉ l.name.toList) (joined : l.ns.toList ++ separator :: l.name.toList =
      l'.ns.toList ++ separator :: l'.name.toList) : l.ns = l'.ns ∧ l.name = l'.name := by
  obtain ⟨sameNs, -, sameName⟩ := (List.append_cons_inj_of_notMem ns name).mp joined
  exact ⟨String.toList_inj.mp sameNs, String.toList_inj.mp sameName⟩

/-- Locks of one key on the server have one key in memory, and the other way round. -/
theorem key_eq_iff (plain : l.IsPlain) : l.key = l'.key ↔ l.describe = l'.describe := by
  constructor
  · intro same
    have chars := congrArg String.toList same
    simp only [key, String.toList_append, List.append_assoc, List.append_cancel_left_eq] at chars
    obtain ⟨ns, name⟩ := names_of_joined ':'
      (fun member => (plain _ (List.mem_append_left _ member)).2 rfl)
      (fun member => (plain _ (List.mem_append_right _ member)).2 rfl) chars
    rw [describe, describe, ns, name]
  · intro same
    have chars := congrArg String.toList same
    simp only [describe, String.toList_append, List.append_assoc] at chars
    obtain ⟨ns, name⟩ := names_of_joined '/'
      (fun member => (plain _ (List.mem_append_left _ member)).1 rfl)
      (fun member => (plain _ (List.mem_append_right _ member)).1 rfl) chars
    rw [key, key, ns, name]

end Lock

/-! ## One call -/

/-- The server holds for the lock of every lease what the store holds for the lease, and a few steps
have led there. -/
structure Mirrors (store : MemoryStore) (data : Table String (List UInt8)) (steps : Nat) : Prop where
  data : ∀ l : Lock, l.IsPlain →
    data.get? l.key = (store.get? l.describe).map fun e => Text.bytes e.encode
  lease : ∀ key e, store.get? key = some e → e.lease.WellFormed
  version : ∀ key e, store.get? key = some e → e.version ≤ steps

namespace Mirrors

variable {store : MemoryStore} {data : Table String (List UInt8)} {steps : Nat} {l : Lock}

theorem empty : Mirrors .empty .empty 0 := ⟨fun _ _ => rfl, nofun, nofun⟩

theorem wait (mirrors : Mirrors store data steps) : Mirrors store data (steps + 1) :=
  ⟨mirrors.data, mirrors.lease, fun key e held => Nat.le_succ_of_le (mirrors.version key e held)⟩

theorem put (mirrors : Mirrors store data steps) (plain : l.IsPlain) {e : Entry}
    (lease : e.lease.WellFormed) (version : e.version ≤ steps + 1) :
    Mirrors (store.put l.describe e) (data.put l.key (Text.bytes e.encode)) (steps + 1) where
  data := by
    intro l' plain'
    rw [Table.get?_put, Table.get?_put]
    by_cases same : l.key = l'.key
    · rw [if_pos same, if_pos ((Lock.key_eq_iff plain).mp same)]
      rfl
    · rw [if_neg same, if_neg fun describes => same ((Lock.key_eq_iff plain).mpr describes)]
      exact mirrors.data l' plain'
  lease := by
    intro key e' held
    rw [Table.get?_put] at held
    split at held
    · cases held
      exact lease
    · exact mirrors.lease key e' held
  version := by
    intro key e' held
    rw [Table.get?_put] at held
    split at held
    · cases held
      exact version
    · exact mirrors.wait.version key e' held

theorem wellFormed (mirrors : Mirrors store data steps) (few : steps < 2 ^ 53) {key : String}
    {e : Entry} (held : store.get? key = some e) : e.WellFormed := by
  have bound := mirrors.version key e held
  have room : 2 ^ 53 < Entry.versionLimit := by decide
  exact ⟨by omega, mirrors.lease key e held⟩

theorem get {server : Server} (mirrors : Mirrors store server.data steps) (few : steps < 2 ^ 53)
    (plain : l.IsPlain) : l.get {} server = (.ok (store.get? l.describe), server) := by
  have stored := mirrors.data l plain
  cases held : store.get? l.describe with
  | none =>
      rw [held, Option.map_none] at stored
      simp [Lock.get, Lock.send_run, Server.run, stored]
  | some e =>
      rw [held, Option.map_some] at stored
      simp [Lock.get, Lock.send_run, Server.run, stored, Text.ofBytes?_bytes,
        Entry.decode?_encode (mirrors.wellFormed few held)]

theorem create {server : Server} (mirrors : Mirrors store server.data steps) (plain : l.IsPlain)
    {lease : Lease} (wellFormed : lease.WellFormed) :
    (l.create {} server lease).1 = (store.create l.describe lease).1 ∧
      Mirrors (store.create l.describe lease).2 (l.create {} server lease).2.data (steps + 1) := by
  have stored := mirrors.data l plain
  cases held : store.get? l.describe with
  | none =>
      rw [held, Option.map_none] at stored
      simp only [Lock.create, Lock.send_run, Server.run, Table.contains, stored,
        MemoryStore.create, held]
      exact ⟨rfl, mirrors.put plain wellFormed (by simp)⟩
  | some e =>
      rw [held, Option.map_some] at stored
      simp only [Lock.create, Lock.send_run, Server.run, Table.contains, stored,
        MemoryStore.create, held]
      exact ⟨rfl, mirrors.wait⟩

theorem update {server : Server} (mirrors : Mirrors store server.data steps) (few : steps < 2 ^ 53)
    (plain : l.IsPlain) {version : Nat} (room : version < Entry.versionLimit - 1) {lease : Lease}
    (wellFormed : lease.WellFormed) :
    (l.update {} server version lease).1 = (store.update l.describe version lease).1 ∧
      Mirrors (store.update l.describe version lease).2
        (l.update {} server version lease).2.data (steps + 1) := by
  have stored : server.primed.data.get? l.key = _ := mirrors.data l plain
  have next : Entry.nextVersion? version = some (version + 1) := if_pos (by omega)
  cases held : store.get? l.describe with
  | none =>
      rw [held, Option.map_none] at stored
      simp only [Lock.update, next, Lock.runScript_eq, Server.swap, stored, MemoryStore.update,
        held]
      exact ⟨rfl, mirrors.wait⟩
  | some e =>
      have found : server.primed.compare (Text.bytes e.encode) version =
          .ok (decide (e.version = version)) := by
        rw [Server.compare_of_encode _ (mirrors.wellFormed few held)]
        exact Script.compare_encode (mirrors.wellFormed few held)
          (Nat.lt_of_le_of_lt (mirrors.version _ e held) few) version
      rw [held, Option.map_some] at stored
      by_cases same : e.version = version
      · rw [decide_eq_true same] at found
        have bound := mirrors.version _ e held
        simp only [Lock.update, next, Lock.runScript_eq, Server.swap, stored, found,
          MemoryStore.update, held, if_pos same]
        exact ⟨rfl, mirrors.put plain wellFormed (by dsimp only; omega)⟩
      · rw [decide_eq_false same] at found
        simp only [Lock.update, next, Lock.runScript_eq, Server.swap, stored, found,
          MemoryStore.update, held, if_neg same]
        exact ⟨rfl, mirrors.wait⟩

/-- A call is answered alike, and the server goes on to hold what the store holds. -/
theorem perform {server : Server} (mirrors : Mirrors store server.data steps)
    (few : steps < 2 ^ 53) (plain : l.IsPlain) {call : Call} (proper : call.IsProper) :
    (l.perform {} server call).1 = (store.perform l.describe call).1 ∧
      Mirrors (store.perform l.describe call).2 (l.perform {} server call).2.data (steps + 1) := by
  cases call with
  | get =>
      simp only [Lock.perform, MemoryStore.perform, mirrors.get few plain]
      exact ⟨trivial, mirrors.wait⟩
  | write w =>
      cases w with
      | create lease =>
          obtain ⟨same, next⟩ := mirrors.create plain proper
          exact ⟨congrArg Answer.write same, next⟩
      | update version lease =>
          obtain ⟨same, next⟩ := mirrors.update few plain proper.1 proper.2
          exact ⟨congrArg Answer.write same, next⟩

/-- Calls through any locks are answered alike. -/
theorem performAll {calls : List (Lock × Call)} {server : Server}
    (mirrors : Mirrors store server.data steps) (few : steps + calls.length ≤ 2 ^ 53)
    (plain : ∀ c ∈ calls, c.1.IsPlain) (proper : ∀ c ∈ calls, c.2.IsProper) :
    (Lock.performAll {} server calls).1 =
      (store.performAll (calls.map fun c => (leaseKey c.1.ns c.1.name, c.2))).1 := by
  induction calls generalizing store server steps with
  | nil => rfl
  | cons c calls ih =>
      rw [List.length_cons] at few
      obtain ⟨same, next⟩ := mirrors.perform (by omega) (plain c List.mem_cons_self)
        (proper c List.mem_cons_self)
      have rest := ih next (by omega) (fun c member => plain c (List.mem_cons_of_mem _ member))
        (fun c member => proper c (List.mem_cons_of_mem _ member))
      exact List.cons_eq_cons.mpr ⟨same, rest⟩

end Mirrors

/-- Calls through any locks with plain names get the same answers from an empty server as from an
empty store in memory, as long as the server answers every command. -/
theorem backends_agree (calls : List (Lock × Call)) (loaded : Bool)
    (plain : ∀ c ∈ calls, c.1.IsPlain) (proper : ∀ c ∈ calls, c.2.IsProper)
    (few : calls.length < 2 ^ 53) :
    (Lock.performAll {} { loaded } calls).1 =
      (MemoryStore.performAll .empty (calls.map fun c => (leaseKey c.1.ns c.1.name, c.2))).1 :=
  Mirrors.empty.performAll (by omega) plain proper

/-- Two locks create one lease, read it and replace it for the same version; one of a lease that does
not exist tries to replace that. The name of a holder has to be escaped. -/
def callsOfThree : List (Lock × Call) :=
  let lock := fun name identity => ⟨"test", name, identity, .ofSeconds 5⟩
  let lease := fun holder => ⟨holder, .ofMillis 1500, .ofUnix 0 5, .ofUnix 0 5, 0⟩
  [(lock "lease" "a", .write (.create (lease "a"))), (lock "lease" "b", .write (.create (lease "b"))),
    (lock "lease" "b", .get), (lock "lease" "b", .write (.update 1 (lease "\"b\n"))),
    (lock "lease" "a", .write (.update 1 (lease "a"))), (lock "lease" "a", .get),
    (lock "other" "a", .write (.update 1 (lease "a")))]

theorem backends_agree_callsOfThree :
    (∀ c ∈ callsOfThree, c.1.IsPlain) ∧ (∀ c ∈ callsOfThree, c.2.IsProper) ∧
      callsOfThree.length < 2 ^ 53 ∧
      (Lock.performAll {} {} callsOfThree).1 = (MemoryStore.performAll .empty
        (callsOfThree.map fun c => (leaseKey c.1.ns c.1.name, c.2))).1 := by
  have plain : ∀ c ∈ callsOfThree, c.1.IsPlain := by decide
  have proper : ∀ c ∈ callsOfThree, c.2.IsProper := by decide +kernel
  have few : callsOfThree.length < 2 ^ 53 := by decide
  exact ⟨plain, proper, few, backends_agree callsOfThree false plain proper few⟩

end Redis

end LeaderLease
