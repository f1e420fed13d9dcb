import LeaderLease.Store.Memory
import Mathlib.Data.List.Induction
import Mathlib.Data.List.Nodup

/-!
# The store as a register of versions

Each key of a store is a register of its own. `acceptedOn` keeps, of calls that an empty store
answers in order, the writes on one key that it accepted, each with the entry that it answered. Their
versions count from one, so that no two of them answer to the same version, and the last of them is
what the key holds (`Register`). `linear_registers` proves this for any calls on any keys, whoever
makes them and in any order, and what each call among them may do.
-/

set_option autoImplicit false

namespace LeaderLease

/-- A write that a store accepted, and the entry that it stored. -/
structure Accepted where
  write : Write
  entry : Entry
deriving DecidableEq, Repr

def Write.isCreate : Write → Bool
  | .create _ => true
  | .update _ _ => false

/-- The write replaces the version. -/
def Write.replaces (version : Nat) : Write → Bool
  | .create _ => false
  | .update v _ => v = version

def Call.isWrite : Call → Bool
  | .get => false
  | .write _ => true

/-- The write that a call on a key made, if it was accepted. -/
def accepted? (key : String) : (String × Call) × Answer → Option Accepted
  | ((k, .write w), .write (.ok e)) => if k = key then some ⟨w, e⟩ else none
  | _ => none

/-- The writes on a key that an empty store accepts among calls, in their order. -/
def acceptedOn (key : String) (calls : List (String × Call)) : List Accepted :=
  (calls.zip (MemoryStore.performAll .empty calls).1).filterMap (accepted? key)

/-- The entry that was stored last on a key. -/
def latestOn (key : String) (calls : List (String × Call)) : Option Entry :=
  (acceptedOn key calls).getLast?.map (·.entry)

/-- What an accepted write stores: its lease, at version one if it creates the lease, and else at the
version after the one that it replaces. -/
structure Accepted.Follows (a : Accepted) : Prop where
  lease : a.entry.lease = a.write.lease
  version : a.write = .create a.write.lease ∧ a.entry.version = 1 ∨
    ∃ v, a.write = .update v a.write.lease ∧ 0 < v ∧ a.entry.version = v + 1

/-- How a key stands to the writes on it that were accepted. -/
structure Register (s : MemoryStore) (key : String) (writes : List Accepted) : Prop where
  versions : writes.map (·.entry.version) = List.range' 1 writes.length
  follows : ∀ a ∈ writes, a.Follows
  current : s.get? key = writes.getLast?.map (·.entry)

namespace Accepted.Follows

variable {a : Accepted}

theorem isCreate_iff (follows : a.Follows) : a.write.isCreate = true ↔ a.entry.version = 1 := by
  rcases follows.version with ⟨create, version⟩ | ⟨v, update, positive, version⟩
  · rw [create, version]
    simp [Write.isCreate]
  · rw [update, version]
    simp only [Write.isCreate, Bool.false_eq_true, false_iff]
    omega

theorem replaces_imp (follows : a.Follows) {version : Nat}
    (replaces : a.write.replaces version = true) : a.entry.version = version + 1 := by
  rcases follows.version with ⟨create, -⟩ | ⟨v, update, -, next⟩
  · rw [create] at replaces
    cases replaces
  · rw [update] at replaces
    rw [next, of_decide_eq_true replaces]

end Accepted.Follows

namespace Register

variable {s : MemoryStore} {key : String} {writes : List Accepted}

theorem empty (key : String) : Register .empty key [] := ⟨rfl, nofun, rfl⟩

theorem unique (register : Register s key writes) {p : Accepted → Bool} {version : Nat}
    (same : ∀ a ∈ writes, p a = true → a.entry.version = version) : writes.countP p ≤ 1 := by
  have nodup : (writes.map (·.entry.version)).Nodup := by
    rw [register.versions]
    exact List.nodup_range'
  calc writes.countP p
      ≤ writes.countP (·.entry.version == version) :=
        List.countP_mono_left fun a member holds => beq_iff_eq.mpr (same a member holds)
    _ = (writes.map (·.entry.version)).count version := by rw [List.count, List.countP_map]; rfl
    _ ≤ 1 := List.nodup_iff_count_le_one.mp nodup version

theorem created (register : Register s key writes) (some : writes ≠ []) :
    ∃ a ∈ writes, a.write.isCreate = true := by
  cases writes with
  | nil => exact absurd rfl some
  | cons a rest =>
      have versions := register.versions
      rw [List.map_cons, List.length_cons, List.range'_succ] at versions
      have first := register.follows a List.mem_cons_self
      exact ⟨a, List.mem_cons_self, first.isCreate_iff.mpr (List.cons.inj versions).1⟩

/-- The version of the current entry is the number of accepted writes. -/
theorem current_version (register : Register s key writes) {e : Entry}
    (held : s.get? key = some e) : e.version = writes.length := by
  rw [register.current] at held
  obtain ⟨a, last, rfl⟩ := Option.map_eq_some_iff.mp held
  have some : writes.length ≠ 0 := by
    rintro nothing
    rw [List.eq_nil_of_length_eq_zero nothing] at last
    cases last
  have versions := congrArg List.getLast? register.versions
  rw [List.getLast?_map, last, Option.map_some, List.getLast?_range', if_neg some,
    Nat.add_sub_cancel_left] at versions
  exact Option.some.inj versions

theorem eq_nil (register : Register s key writes) (absent : s.get? key = none) : writes = [] := by
  rw [register.current] at absent
  exact List.getLast?_eq_none_iff.mp (Option.map_eq_none_iff.mp absent)

/-- A write on the key is accepted. -/
theorem concat (register : Register s key writes) {w : Write} {e : Entry} {s' : MemoryStore}
    (run : s.write key w = (.ok e, s')) : Register s' key (writes ++ [⟨w, e⟩]) := by
  obtain ⟨rfl, lease, accepted⟩ := MemoryStore.write_ok run
  have version : e.version = 1 + writes.length := by
    rcases accepted with ⟨absent, first, -⟩ | ⟨before, held, next, -⟩
    · rw [register.eq_nil absent, first]
      rfl
    · rw [next, register.current_version held, Nat.add_comm]
  have follows : Accepted.Follows ⟨w, e⟩ := by
    refine ⟨lease, ?_⟩
    rcases accepted with ⟨-, first, create⟩ | ⟨before, held, next, update⟩
    · exact .inl ⟨create, first⟩
    · refine .inr ⟨before.version, update, ?_, next⟩
      rw [register.current_version held]
      refine Nat.pos_of_ne_zero fun nothing => ?_
      rw [register.current, List.eq_nil_of_length_eq_zero nothing] at held
      cases held
  refine ⟨?_, ?_, ?_⟩
  · rw [List.map_append, register.versions, List.length_append, List.length_singleton,
      List.range'_1_concat, ← version]
    rfl
  · intro a member
    rcases List.mem_append.mp member with before | new
    · exact register.follows a before
    · cases List.mem_singleton.mp new
      exact follows
  · rw [Table.get?_put_self, List.getLast?_concat]
    rfl

/-- A call on any key. -/
theorem perform (register : Register s key writes) (k : String) (call : Call) :
    Register (s.perform k call).2 key
      (writes ++ (accepted? key ((k, call), (s.perform k call).1)).toList) := by
  have unchanged : Register s key (writes ++ []) := by
    rw [List.append_nil]
    exact register
  cases call with
  | get => exact unchanged
  | write w =>
      simp only [MemoryStore.perform]
      generalize run : s.write k w = answered
      obtain ⟨answer, s'⟩ := answered
      cases answer with
      | error err =>
          cases MemoryStore.write_error run
          exact unchanged
      | ok e =>
          by_cases same : k = key
          · subst same
            simp only [accepted?, if_true]
            exact register.concat run
          · obtain ⟨rfl, -⟩ := MemoryStore.write_ok run
            simp only [accepted?, if_neg same]
            refine ⟨unchanged.versions, unchanged.follows, ?_⟩
            rw [Table.get?_put_of_ne s e same]
            exact unchanged.current

end Register

namespace MemoryStore

theorem performAll_concat (s : MemoryStore) (calls : List (String × Call)) (key : String)
    (call : Call) :
    s.performAll (calls ++ [(key, call)]) =
      ((s.performAll calls).1 ++ [((s.performAll calls).2.perform key call).1],
        ((s.performAll calls).2.perform key call).2) := by
  induction calls generalizing s with
  | nil => rfl
  | cons first rest ih =>
      simp only [List.cons_append, performAll, ih]

theorem length_performAll (s : MemoryStore) (calls : List (String × Call)) :
    (s.performAll calls).1.length = calls.length := by
  induction calls generalizing s with
  | nil => rfl
  | cons first rest ih =>
      simp only [performAll, List.length_cons, ih]

end MemoryStore

variable {key : String} {calls : List (String × Call)}

theorem acceptedOn_concat (key : String) (calls : List (String × Call)) (last : String × Call) :
    acceptedOn key (calls ++ [last]) = acceptedOn key calls ++
      (accepted? key
        (last, ((MemoryStore.performAll .empty calls).2.perform last.1 last.2).1)).toList := by
  have paired := (MemoryStore.length_performAll .empty calls).symm
  rw [acceptedOn, MemoryStore.performAll_concat, List.zip_append paired, List.filterMap_append]
  rfl

/-- Whatever was called before, the key holds the last of the writes on it that were accepted. -/
theorem register_of_calls (key : String) (calls : List (String × Call)) :
    Register (MemoryStore.performAll .empty calls).2 key (acceptedOn key calls) := by
  induction calls using List.reverseRecOn with
  | nil => exact .empty key
  | append_singleton calls last ih =>
      rw [acceptedOn_concat, MemoryStore.performAll_concat]
      exact ih.perform last.1 last.2

theorem length_acceptedOn_le (key : String) (calls : List (String × Call)) :
    (acceptedOn key calls).length ≤ calls.countP (·.2.isWrite) := by
  have paired := Nat.le_of_eq (MemoryStore.length_performAll .empty calls).symm
  rw [acceptedOn, List.length_filterMap_eq_countP]
  conv_rhs => rw [← List.map_fst_zip paired, List.countP_map]
  refine List.countP_mono_left fun served _ accepted => ?_
  obtain ⟨⟨k, call⟩, answer⟩ := served
  cases call with
  | get => cases accepted
  | write w => rfl

/-- A key on which a lease was to be created is taken. -/
theorem acceptedOn_ne_nil {l : Lease} (called : (key, .write (.create l)) ∈ calls) :
    acceptedOn key calls ≠ [] := by
  induction calls using List.reverseRecOn with
  | nil => cases called
  | append_singleton calls last ih =>
      rw [acceptedOn_concat]
      rcases List.mem_append.mp called with before | now
      · exact List.append_ne_nil_of_left_ne_nil (ih before) _
      cases List.mem_singleton.mp now
      cases held : (MemoryStore.performAll .empty calls).2.get? key with
      | none => simp [MemoryStore.perform, MemoryStore.write, MemoryStore.create, held, accepted?]
      | some e =>
          refine List.append_ne_nil_of_left_ne_nil (fun nothing => ?_) _
          rw [(register_of_calls key calls).current, nothing] at held
          cases held

theorem called_of_mem {a : Accepted} (member : a ∈ acceptedOn key calls) :
    (key, .write a.write) ∈ calls := by
  obtain ⟨⟨⟨k, call⟩, answer⟩, served, accepted⟩ := List.mem_filterMap.mp member
  have called := (List.of_mem_zip served).1
  cases call with
  | get => cases accepted
  | write w =>
      cases answer with
      | read => cases accepted
      | write answer =>
          cases answer with
          | error err => cases accepted
          | ok e =>
              simp only [accepted?] at accepted
              split at accepted
              · rename_i same
                cases accepted
                exact same ▸ called
              · cases accepted

/-! ## One call -/

/-- What a store does with a call on a key that holds `latest`. -/
structure MemoryStore.Serves (s : MemoryStore) (latest : Option Entry) (key : String) (call : Call) :
    Prop where
  read : call = .get → s.perform key call = (.read (.ok latest), s)
  created : ∀ l, call = .write (.create l) →
    ((∃ e, (s.perform key call).1 = .write (.ok e)) ↔ latest = none)
  updated : ∀ version l, call = .write (.update version l) →
    ((∃ e, (s.perform key call).1 = .write (.ok e)) ↔ ∃ e, latest = some e ∧ e.version = version)
  /-- A call that fails says why, and leaves the whole store unchanged. -/
  failed : ∀ err, (s.perform key call).1 = .write (.error err) → (s.perform key call).2 = s ∧
    (err = .alreadyExists key ∨ err = .notFound key ∨ err = .conflict key)
  elsewhere : ∀ other, other ≠ key → (s.perform key call).2.get? other = s.get? other

namespace MemoryStore

variable {s : MemoryStore} {latest : Option Entry}

theorem serves_get (current : s.get? key = latest) : s.Serves latest key .get where
  read := fun _ => by rw [perform, current]
  created := nofun
  updated := nofun
  failed := nofun
  elsewhere := fun _ _ => rfl

/-- A write that is accepted. -/
theorem serves_accepted {w : Write} {e : Entry} (run : s.write key w = (.ok e, s.put key e))
    (created : ∀ l, w = .create l → latest = none)
    (updated : ∀ version l, w = .update version l → ∃ e, latest = some e ∧ e.version = version) :
    s.Serves latest key (.write w) := by
  have performed : s.perform key (.write w) = (.write (.ok e), s.put key e) := by
    rw [perform, run]
  refine ⟨nofun, ?_, ?_, ?_, ?_⟩
  · rintro l ⟨rfl⟩
    exact iff_of_true ⟨e, by rw [performed]⟩ (created l rfl)
  · rintro version l ⟨rfl⟩
    exact iff_of_true ⟨e, by rw [performed]⟩ (updated version l rfl)
  · intro err failed
    rw [performed] at failed
    cases failed
  · intro other differs
    rw [performed]
    exact Table.get?_put_of_ne s e differs.symm

/-- A write that is refused. -/
theorem serves_refused {w : Write} {err : StoreError} (run : s.write key w = (.error err, s))
    (reason : err = .alreadyExists key ∨ err = .notFound key ∨ err = .conflict key)
    (created : ∀ l, w = .create l → latest ≠ none)
    (updated : ∀ version l, w = .update version l →
      ¬ ∃ e, latest = some e ∧ e.version = version) :
    s.Serves latest key (.write w) := by
  have performed : s.perform key (.write w) = (.write (.error err), s) := by
    rw [perform, run]
  have refused : ¬ ∃ e, (s.perform key (.write w)).1 = .write (.ok e) := by
    rw [performed]
    rintro ⟨e, ⟨⟩⟩
  refine ⟨nofun, ?_, ?_, ?_, ?_⟩
  · rintro l ⟨rfl⟩
    exact iff_of_false refused (created l rfl)
  · rintro version l ⟨rfl⟩
    exact iff_of_false refused (updated version l rfl)
  · intro err' failed
    rw [performed] at failed ⊢
    cases failed
    exact ⟨rfl, reason⟩
  · intro other _
    rw [performed]

theorem serves_create (current : s.get? key = latest) (l : Lease) :
    s.Serves latest key (.write (.create l)) := by
  cases held : latest with
  | none =>
      rw [held] at current
      refine serves_accepted (e := ⟨1, l⟩) ?_ (fun _ _ => rfl) ?_
      · rw [write, create, current]
      · rintro _ _ ⟨⟩
  | some e =>
      rw [held] at current
      refine serves_refused ?_ (.inl rfl) (fun _ _ => Option.some_ne_none e) ?_
      · rw [write, create, current]
      · rintro _ _ ⟨⟩

theorem serves_update (current : s.get? key = latest)
    (room : ∀ e, latest = some e → e.version + 1 < Entry.versionLimit) (version : Nat) (l : Lease) :
    s.Serves latest key (.write (.update version l)) := by
  cases held : latest with
  | none =>
      rw [held] at current
      refine serves_refused ?_ (.inr (.inl rfl)) ?_ ?_
      · rw [write, update, current]
      · rintro _ ⟨⟩
      · rintro _ _ ⟨⟩ ⟨e, ⟨⟩, -⟩
  | some e =>
      rw [held] at current
      by_cases same : e.version = version
      · refine serves_accepted (e := ⟨version + 1, l⟩) ?_ ?_ ?_
        · have next : Entry.nextVersion? version = some (version + 1) :=
            if_pos (same ▸ room e held)
          simp only [write, update, current, if_pos same, next]
        · rintro _ ⟨⟩
        · rintro _ _ ⟨⟩
          exact ⟨e, rfl, same⟩
      · refine serves_refused ?_ (.inr (.inr rfl)) (fun _ _ => Option.some_ne_none e) ?_
        · simp only [write, update, current, if_neg same]
        · rintro _ _ ⟨⟩ ⟨e', ⟨⟩, agrees⟩
          exact same agrees

theorem serves (current : s.get? key = latest)
    (room : ∀ e, latest = some e → e.version + 1 < Entry.versionLimit) (call : Call) :
    s.Serves latest key call := by
  cases call with
  | get => exact serves_get current
  | write w =>
      cases w with
      | create l => exact serves_create current l
      | update version l => exact serves_update current room version l

/-- What holds of one key after calls on an empty store. -/
structure IsLinear (key : String) (calls : List (String × Call)) : Prop where
  versions : (acceptedOn key calls).map (·.entry.version) =
    List.range' 1 (acceptedOn key calls).length
  stored : ∀ a ∈ acceptedOn key calls, a.entry.lease = a.write.lease
  createdOnce : (acceptedOn key calls).countP (·.write.isCreate) ≤ 1
  created : (∃ l, (key, .write (.create l)) ∈ calls) ↔
    (acceptedOn key calls).countP (·.write.isCreate) = 1
  replacedOnce : ∀ version, (acceptedOn key calls).countP (·.write.replaces version) ≤ 1
  current : (performAll .empty calls).2.get? key = latestOn key calls

theorem isLinear (key : String) (calls : List (String × Call)) : IsLinear key calls := by
  have register := register_of_calls key calls
  have createdOnce : (acceptedOn key calls).countP (·.write.isCreate) ≤ 1 :=
    register.unique fun a member => (register.follows a member).isCreate_iff.mp
  refine ⟨register.versions, fun a member => (register.follows a member).lease, createdOnce, ?_,
    fun version => register.unique fun a member => (register.follows a member).replaces_imp,
    register.current⟩
  constructor
  · rintro ⟨l, called⟩
    have positive := List.countP_pos_iff.mpr (register.created (acceptedOn_ne_nil called))
    omega
  · intro once
    obtain ⟨a, member, create⟩ := List.countP_pos_iff.mp (once.symm ▸ Nat.one_pos)
    have called := called_of_mem member
    generalize a.write = w at create called
    cases w with
    | create l => exact ⟨l, called⟩
    | update version l => cases create

/-- A store that starts empty and answers fewer than 2^64 - 1 writes keeps one register for each key,
for any calls on any keys in any order: the writes that it accepts on a key have the versions 1, 2, 3
and so on, exactly one of them creates the lease if any call was to create it, no two replace the same
version, and the last of them is what the key holds. Each call is answered from what its key holds
then; it changes no other key, and nothing at all if it fails. -/
theorem linear_registers (calls : List (String × Call))
    (few : calls.countP (·.2.isWrite) < Entry.versionLimit - 1) :
    (∀ key, IsLinear key calls) ∧
    ∀ earlier key call later, calls = earlier ++ (key, call) :: later →
      (performAll .empty earlier).2.Serves (latestOn key earlier) key call := by
  refine ⟨fun key => isLinear key calls, ?_⟩
  rintro earlier key call later rfl
  have register := register_of_calls key earlier
  refine serves register.current (fun e last => ?_) call
  have bound := length_acceptedOn_le key earlier
  rw [List.countP_append] at few
  rw [register.current_version (register.current.trans last)]
  omega

/-- Two competitors create the lease, and both replace the version that they have read; one more
looks for a lease of another name. -/
def twoCompetitors : List (String × Call) :=
  let lease := fun holder => ⟨holder, .ofSeconds 10, .ofUnix 0 0, .ofUnix 0 0, 0⟩
  [(leaseKey "test" "lease", .write (.create (lease "a"))),
    (leaseKey "test" "lease", .write (.create (lease "b"))), (leaseKey "test" "lease", .get),
    (leaseKey "test" "lease", .write (.update 1 (lease "b"))),
    (leaseKey "test" "lease", .write (.update 1 (lease "a"))),
    (leaseKey "test" "other", .write (.update 1 (lease "a")))]

theorem linear_registers_twoCompetitors :
    twoCompetitors.countP (·.2.isWrite) < Entry.versionLimit - 1 ∧
      IsLinear (leaseKey "test" "lease") twoCompetitors ∧
      (acceptedOn (leaseKey "test" "lease") twoCompetitors).map
        (fun a => (a.write.isCreate, a.entry.version, a.entry.lease.holder)) =
        [(true, 1, "a"), (false, 2, "b")] := by
  have few : twoCompetitors.countP (·.2.isWrite) < Entry.versionLimit - 1 := by decide +kernel
  exact ⟨few, (linear_registers twoCompetitors few).1 _, by decide +kernel⟩

end MemoryStore

end LeaderLease
