import LeaderLease.Data.Table
import LeaderLease.Store.Call

/-!
# The store in memory

Entries by key, where the key of a lease is its namespace, a slash and its name. A lease is created
at version one and every update raises the version by one; a call that fails changes nothing.
-/

set_option autoImplicit false

namespace LeaderLease

abbrev MemoryStore : Type := Table String Entry

/-- A lease's namespace and name in one text. -/
def leaseKey (ns name : String) : String := ns ++ "/" ++ name

namespace MemoryStore

def create (s : MemoryStore) (key : String) (l : Lease) : WriteAnswer × MemoryStore :=
  match s.get? key with
  | some _ => (.error (.alreadyExists key), s)
  | none => (.ok ⟨1, l⟩, s.put key ⟨1, l⟩)

/-- Succeeds only for the current version. -/
def update (s : MemoryStore) (key : String) (version : Nat) (l : Lease) :
    WriteAnswer × MemoryStore :=
  match s.get? key with
  | none => (.error (.notFound key), s)
  | some current =>
    if current.version = version then
      match Entry.nextVersion? version with
      | some next => (.ok ⟨next, l⟩, s.put key ⟨next, l⟩)
      | none => (.error .exhausted, s)
    else (.error (.conflict key), s)

def write (s : MemoryStore) (key : String) : Write → WriteAnswer × MemoryStore
  | .create l => s.create key l
  | .update version l => s.update key version l

def perform (s : MemoryStore) (key : String) : Call → Answer × MemoryStore
  | .get => (.read (.ok (s.get? key)), s)
  | .write w =>
    let (answer, s) := s.write key w
    (.write answer, s)

/-- The answers to calls in order, and the store behind them. -/
def performAll (s : MemoryStore) : List (String × Call) → List Answer × MemoryStore
  | [] => ([], s)
  | (key, call) :: calls =>
    let (answer, s) := s.perform key call
    let (answers, s) := s.performAll calls
    (answer :: answers, s)

/-- What a write that succeeds does: it creates the first version, or replaces the current one. -/
theorem write_ok {s s' : MemoryStore} {key : String} {w : Write} {e : Entry}
    (run : s.write key w = (.ok e, s')) : s' = s.put key e ∧ e.lease = w.lease ∧
      (s.get? key = none ∧ e.version = 1 ∧ w = .create w.lease ∨
        ∃ current, s.get? key = some current ∧ e.version = current.version + 1 ∧
          w = .update current.version w.lease) := by
  cases w with
  | create l =>
      simp only [write, create] at run
      split at run
      · cases run
      · rename_i absent
        cases run
        exact ⟨rfl, rfl, Or.inl ⟨absent, rfl, rfl⟩⟩
  | update version l =>
      simp only [write, update] at run
      split at run
      · cases run
      · rename_i current held
        split at run
        · rename_i same
          split at run
          · rename_i next following
            cases run
            refine ⟨rfl, rfl, Or.inr ⟨current, held, ?_, by rw [same]; rfl⟩⟩
            unfold Entry.nextVersion? at following
            split at following
            · rw [← Option.some.inj following, same]
            · cases following
          · cases run
        · cases run

theorem write_error {s s' : MemoryStore} {key : String} {w : Write} {err : StoreError}
    (run : s.write key w = (.error err, s')) : s' = s := by
  cases w with
  | create l =>
      simp only [write, create] at run
      split at run <;> cases run
      rfl
  | update version l =>
      simp only [write, update] at run
      repeat' split at run
      all_goals cases run
      all_goals rfl

end MemoryStore

end LeaderLease
