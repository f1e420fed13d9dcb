import LeaderLease.Election.Settings
import LeaderLease.Proofs.Confinement
import LeaderLease.Store.Memory

/-!
# Leases by their names

A lease is isolated from another one if calls for the other one go unnoticed: whatever is stored at
first and whoever else makes calls, the calls for the lease are answered as if those for the other
one had not been made (`OthersUnnoticed`). Both backends keep a lease under one key, so this holds
exactly if the two keys differ. A key is the two names with a sign between them, and two pairs of
names make one key exactly if the sign stands in the names too, so that a part of one name may be
taken for a part of the other (`Confusable`). The backends use different signs, so each keeps apart
leases that the other one takes for one (`isolated_iff`).
-/

set_option autoImplicit false

namespace LeaderLease

/-! ## Calls that go unnoticed -/

section

variable {σ κ : Type}

/-- The answers to the calls in which somebody is interested. -/
def answersTo (wanted : κ → Bool) (calls : List κ) (answers : List Answer) : List Answer :=
  ((calls.zip answers).filter fun call => wanted call.1).map (·.2)

/-- From any state on, the answers are the same if only the calls that are shown are made. -/
def OthersUnnoticed (run : σ → List κ → List Answer) (shown wanted : κ → Bool) : Prop :=
  ∀ s calls, answersTo wanted calls (run s calls) =
    answersTo wanted (calls.filter shown) (run s (calls.filter shown))

/-- The answers to calls one after another. -/
structure Runs (step : σ → κ → Answer × σ) (run : σ → List κ → List Answer) : Prop where
  nil : ∀ s, run s [] = []
  cons : ∀ s call calls, run s (call :: calls) = (step s call).1 :: run (step s call).2 calls

/-- A relation between states that only calls that are not shown have led apart. -/
structure Unwinds (step : σ → κ → Answer × σ) (shown wanted : κ → Bool) (Alike : σ → σ → Prop) :
    Prop where
  refl : ∀ s, Alike s s
  hides : ∀ {s t call}, shown call = false → Alike s t → Alike (step s call).2 t
  keeps : ∀ {s t} call, Alike s t → Alike (step s call).2 (step t call).2
  agrees : ∀ {s t call}, wanted call = true → Alike s t → (step s call).1 = (step t call).1

variable {step : σ → κ → Answer × σ} {run : σ → List κ → List Answer} {shown wanted : κ → Bool}
  {Alike : σ → σ → Prop}

theorem answersTo_cons (call : κ) (calls : List κ) (answer : Answer) (answers : List Answer) :
    answersTo wanted (call :: calls) (answer :: answers) =
      if wanted call then answer :: answersTo wanted calls answers
      else answersTo wanted calls answers := by
  simp only [answersTo, List.zip_cons_cons, List.filter_cons]
  split <;> rfl

theorem Unwinds.answersTo_eq (unwinds : Unwinds step shown wanted Alike) (runs : Runs step run)
    (visible : ∀ call, wanted call = true → shown call = true) {s t : σ} (alike : Alike s t)
    (calls : List κ) : answersTo wanted calls (run s calls) =
      answersTo wanted (calls.filter shown) (run t (calls.filter shown)) := by
  induction calls generalizing s t with
  | nil => rw [List.filter_nil, runs.nil, runs.nil]
  | cons call calls ih =>
      rw [runs.cons, answersTo_cons]
      by_cases seen : shown call = true
      · rw [List.filter_cons_of_pos seen, runs.cons, answersTo_cons, ih (unwinds.keeps call alike)]
        by_cases interest : wanted call = true
        · rw [if_pos interest, if_pos interest, unwinds.agrees interest alike]
        · rw [if_neg interest, if_neg interest]
      · rw [List.filter_cons_of_neg seen, if_neg fun interest => seen (visible call interest)]
        exact ih (unwinds.hides (Bool.eq_false_iff.mpr seen) alike)

theorem Unwinds.othersUnnoticed (unwinds : Unwinds step shown wanted Alike) (runs : Runs step run)
    (visible : ∀ call, wanted call = true → shown call = true) :
    OthersUnnoticed run shown wanted :=
  fun s => unwinds.answersTo_eq runs visible (unwinds.refl s)

/-- In particular, one call that is not shown makes no difference to the next call. -/
theorem OthersUnnoticed.step_eq (unnoticed : OthersUnnoticed run shown wanted)
    (runs : Runs step run) (s : σ) (concealed call : κ) (hidden : shown concealed = false)
    (unwanted : wanted concealed = false) (seen : shown call = true) (interest : wanted call = true) :
    (step (step s concealed).2 call).1 = (step s call).1 := by
  have same := unnoticed s [concealed, call]
  rw [List.filter_cons_of_neg (Bool.eq_false_iff.mp hidden), List.filter_cons_of_pos seen,
    List.filter_nil] at same
  simpa [runs.cons, runs.nil, answersTo_cons, unwanted, interest, answersTo] using same

end

/-! ## Names and keys -/

/-- The two names of a lease. -/
structure LeaseName where
  ns : String
  name : String
deriving DecidableEq, Repr

namespace LeaseName

/-- The two names with a sign between them. -/
def joined (sign : Char) (p : LeaseName) : List Char := p.ns.toList ++ sign :: p.name.toList

/-- The namespace of the second lease goes on with the sign and a text where the one of the first
ends, and the name of the first begins with this text and the sign. -/
def Continues (sign : Char) (p q : LeaseName) : Prop :=
  ∃ text, q.ns.toList = p.ns.toList ++ sign :: text ∧ p.name.toList = text ++ sign :: q.name.toList

def Confusable (sign : Char) (p q : LeaseName) : Prop := p.Continues sign q ∨ q.Continues sign p

variable {sign : Char} {p q : LeaseName}

theorem Continues.joined_eq (continues : p.Continues sign q) : p.joined sign = q.joined sign := by
  obtain ⟨text, ns, name⟩ := continues
  rw [joined, joined, ns, name, List.append_assoc, List.cons_append]

theorem continues_of_append (different : p ≠ q) {rest : List Char}
    (ns : q.ns.toList = p.ns.toList ++ rest)
    (name : sign :: p.name.toList = rest ++ sign :: q.name.toList) : p.Continues sign q := by
  cases rest with
  | nil =>
      rw [List.append_nil] at ns
      have same : p = q := congrArg₂ LeaseName.mk (String.toList_inj.mp ns.symm)
        (String.toList_inj.mp (List.cons.inj name).2)
      exact absurd same different
  | cons c text =>
      obtain ⟨first, behind⟩ := List.cons.inj name
      rw [← first] at ns
      exact ⟨text, ns, behind⟩

/-- Two leases have one key exactly if they can be taken for each other. -/
theorem joined_eq_iff (different : p ≠ q) :
    p.joined sign = q.joined sign ↔ p.Confusable sign q := by
  constructor
  · intro same
    rcases List.append_eq_append_iff.mp same with ⟨rest, ns, name⟩ | ⟨rest, ns, name⟩
    · exact .inl (continues_of_append different ns name)
    · exact .inr (continues_of_append different.symm ns name)
  · rintro (continues | continues)
    · exact continues.joined_eq
    · exact continues.joined_eq.symm

/-- The key of a lease in the memory of a process. -/
def memoryKey (p : LeaseName) : String := leaseKey p.ns p.name

/-- The key of a lease on a server. -/
def serverKey (p : LeaseName) : String := Redis.Lock.keyStart ++ p.ns ++ ":" ++ p.name

theorem memoryKey_eq_iff (different : p ≠ q) :
    p.memoryKey = q.memoryKey ↔ p.Confusable '/' q := by
  rw [← joined_eq_iff different, ← String.toList_inj]
  simp only [memoryKey, leaseKey, String.toList_append, List.append_assoc, joined]
  rfl

theorem serverKey_eq_iff (different : p ≠ q) :
    p.serverKey = q.serverKey ↔ p.Confusable ':' q := by
  rw [← joined_eq_iff different, ← String.toList_inj]
  simp only [serverKey, String.toList_append, List.append_assoc, List.append_cancel_left_eq, joined]
  rfl

end LeaseName

def anybodys : Lease := ⟨"a", .ofSeconds 10, .ofUnix 0 0, .ofUnix 0 0, 0⟩

/-! ## In memory -/

namespace MemoryStore

variable {s t : MemoryStore} {key key' : String}

theorem perform_elsewhere (s : MemoryStore) (call : Call) (other : key ≠ key') :
    (s.perform key call).2.get? key' = s.get? key' := by
  cases call with
  | get => rfl
  | write w =>
      cases run : s.write key w with
      | mk answer after =>
          simp only [perform, run]
          cases answer with
          | ok e => rw [(write_ok run).1, Table.get?_put_of_ne _ _ other]
          | error reason => rw [write_error run]

/-- What a call is answered and what it leaves under its key depend on what is there. -/
theorem perform_alike (same : s.get? key = t.get? key) (call : Call) :
    (s.perform key call).1 = (t.perform key call).1 ∧
      (s.perform key call).2.get? key = (t.perform key call).2.get? key := by
  cases call with
  | get => exact ⟨by simp only [perform, same], same⟩
  | write w =>
      cases w with
      | create lease =>
          simp only [perform, write, create, same]
          cases t.get? key with
          | none => simp
          | some e => exact ⟨rfl, same⟩
      | update version lease =>
          simp only [perform, write, update, same]
          cases t.get? key with
          | none => exact ⟨rfl, same⟩
          | some e =>
              dsimp only
              split
              · cases Entry.nextVersion? version with
                | none => exact ⟨rfl, same⟩
                | some next => simp
              · exact ⟨rfl, same⟩

/-- A call for a lease. -/
def performFor (s : MemoryStore) (call : LeaseName × Call) : Answer × MemoryStore :=
  s.perform call.1.memoryKey call.2

/-- The answers to calls for leases in order. -/
def answers (s : MemoryStore) (calls : List (LeaseName × Call)) : List Answer :=
  (s.performAll (calls.map fun call => (call.1.memoryKey, call.2))).1

theorem runs : Runs performFor answers := ⟨fun _ => rfl, fun _ _ _ => rfl⟩

/-- Calls for the first lease make no difference to what comes back from calls for the second. -/
def Isolates (p q : LeaseName) : Prop :=
  OthersUnnoticed answers (fun call => call.1 ≠ p) (fun call => call.1 = q)

variable {p q : LeaseName}

theorem unwinds (different : p.memoryKey ≠ q.memoryKey) :
    Unwinds performFor (fun call => call.1 ≠ p) (fun call => call.1 = q)
      (fun s t => s.get? q.memoryKey = t.get? q.memoryKey) where
  refl _ := rfl
  hides := by
    rintro s t ⟨r, call⟩ hidden alike
    obtain rfl : r = p := by simpa using hidden
    exact (perform_elsewhere s call different).trans alike
  keeps := by
    rintro s t ⟨r, call⟩ alike
    simp only [performFor]
    by_cases same : r.memoryKey = q.memoryKey
    · rw [same]
      exact (perform_alike alike call).2
    · rw [perform_elsewhere s call same, perform_elsewhere t call same, alike]
  agrees := by
    rintro s t ⟨r, call⟩ wanted alike
    obtain rfl : r = q := by simpa using wanted
    exact (perform_alike alike call).1

theorem isolates (distinct : p ≠ q) (different : p.memoryKey ≠ q.memoryKey) : Isolates p q := by
  refine (unwinds different).othersUnnoticed runs ?_
  rintro ⟨r, call⟩ wanted
  obtain rfl : r = q := by simpa using wanted
  simpa using distinct.symm

/-- A lease that is created under one pair of names is found under the other. -/
theorem not_isolates (distinct : p ≠ q) (same : p.memoryKey = q.memoryKey) : ¬ Isolates p q := by
  intro isolates
  have unseen := isolates.step_eq runs .empty (p, .write (.create anybodys)) (q, .get) (by simp)
    (by simpa using distinct) (by simpa using distinct.symm) (by simp)
  simp [performFor, perform, write, create, same] at unseen

end MemoryStore

/-! ## On a server -/

namespace Redis

namespace Lock

/-- The lease that the lock is for. -/
def lease (l : Lock) : LeaseName := ⟨l.ns, l.name⟩

theorem key_eq (l : Lock) : l.key = l.lease.serverKey := rfl

/-- A call through a lock. -/
def performBy (link : Link) (server : Server) (call : Lock × Call) : Answer × Server :=
  call.1.perform link server call.2

/-- The answers to calls through locks in order. -/
def answers (link : Link) (server : Server) (calls : List (Lock × Call)) : List Answer :=
  (performAll link server calls).1

theorem runs (link : Link) : Runs (performBy link) (answers link) :=
  ⟨fun _ => rfl, fun _ _ _ => rfl⟩

/-- Calls through locks for the first lease make no difference to what comes back from calls through
locks for the second. -/
def Isolates (link : Link) (p q : LeaseName) : Prop :=
  OthersUnnoticed (answers link) (fun call => call.1.lease ≠ p) (fun call => call.1.lease = q)

variable {s t : Server} {p q : LeaseName}

theorem unwinds (link : Link) (different : p.serverKey ≠ q.serverKey) :
    Unwinds (performBy link) (fun call => call.1.lease ≠ p) (fun call => call.1.lease = q)
      (Alike link.Loads q.serverKey) where
  refl _ := ⟨rfl, rfl, .inl rfl⟩
  hides := by
    rintro s t ⟨l, call⟩ hidden alike
    obtain rfl : l.lease = p := by simpa using hidden
    exact alike_elsewhere alike different call
  keeps := by
    rintro s t ⟨l, call⟩ alike
    by_cases same : l.key = q.serverKey
    · rw [← same] at alike ⊢
      obtain ⟨_, _, _, answerS, answerT, after⟩ := perform_alike alike call
      simp only [performBy, answerS, answerT]
      exact after
    · exact (alike_elsewhere (alike_elsewhere alike same call).symm same call).symm
  agrees := by
    rintro s t ⟨l, call⟩ wanted alike
    obtain rfl : l.lease = q := by simpa using wanted
    obtain ⟨_, _, _, answerS, answerT, -⟩ := perform_alike alike call
    simp only [performBy, answerS, answerT]

theorem isolates (link : Link) (distinct : p ≠ q) (different : p.serverKey ≠ q.serverKey) :
    Isolates link p q := by
  refine (unwinds link different).othersUnnoticed (runs link) ?_
  rintro ⟨l, call⟩ wanted
  obtain rfl : l.lease = q := by simpa using wanted
  simpa using distinct.symm

/-- A lease that is created under one pair of names is found under the other. -/
theorem not_isolates (distinct : p ≠ q) (same : p.serverKey = q.serverKey) :
    ¬ Isolates {} p q := by
  intro isolates
  let writer : Lock := ⟨p.ns, p.name, "a", .ofSeconds 5⟩
  let reader : Lock := ⟨q.ns, q.name, "b", .ofSeconds 5⟩
  have unseen := isolates.step_eq (runs {}) {} (writer, .write (.create anybodys)) (reader, .get)
    (decide_eq_false (not_not.mpr rfl)) (decide_eq_false distinct) (decide_eq_true distinct.symm)
    (decide_eq_true rfl)
  have created : (performBy {} {} (writer, .write (.create anybodys))).2.data.get? reader.key =
      some (Text.bytes (Entry.encode ⟨1, anybodys⟩)) := by
    rw [key_eq reader]
    exact same ▸ Table.get?_put_self _ _ _
  have found := get_of_encode created ⟨by decide, by decide⟩
  simp only [performBy] at unseen found
  rw [perform, found] at unseen
  cases unseen

end Lock

end Redis

/-- In memory, a lease is isolated from another one exactly if the two cannot be taken for each other
at a slash, and on a server exactly if they cannot at a colon, however the server is reached. -/
theorem isolated_iff {p q : LeaseName} (distinct : p ≠ q) :
    (MemoryStore.Isolates p q ↔ ¬ p.Confusable '/' q) ∧
      ((∀ link, Redis.Lock.Isolates link p q) ↔ ¬ p.Confusable ':' q) := by
  rw [← LeaseName.memoryKey_eq_iff distinct, ← LeaseName.serverKey_eq_iff distinct]
  refine ⟨⟨fun isolates same => MemoryStore.not_isolates distinct same isolates,
    MemoryStore.isolates distinct⟩, ⟨fun isolates same => ?_, fun different link => ?_⟩⟩
  · exact Redis.Lock.not_isolates distinct same (isolates {})
  · exact Redis.Lock.isolates link distinct different

theorem isolated_iff_oneAndTwo :
    (⟨"one", "lease"⟩ : LeaseName) ≠ ⟨"two", "lease"⟩ ∧
      (MemoryStore.Isolates ⟨"one", "lease"⟩ ⟨"two", "lease"⟩ ↔
        ¬ LeaseName.Confusable '/' ⟨"one", "lease"⟩ ⟨"two", "lease"⟩) ∧
      ((∀ link, Redis.Lock.Isolates link ⟨"one", "lease"⟩ ⟨"two", "lease"⟩) ↔
        ¬ LeaseName.Confusable ':' ⟨"one", "lease"⟩ ⟨"two", "lease"⟩) := by
  have distinct : (⟨"one", "lease"⟩ : LeaseName) ≠ ⟨"two", "lease"⟩ := by decide
  exact ⟨distinct, isolated_iff distinct⟩

/-- A slash in the names makes one lease of two in memory and not on a server, and a colon the other
way round. -/
theorem slash_and_colon_not_isolated :
    (¬ MemoryStore.Isolates ⟨"x/y", "z"⟩ ⟨"x", "y/z"⟩ ∧
      ∀ link, Redis.Lock.Isolates link ⟨"x/y", "z"⟩ ⟨"x", "y/z"⟩) ∧
    (¬ Redis.Lock.Isolates {} ⟨"x:y", "z"⟩ ⟨"x", "y:z"⟩ ∧
      MemoryStore.Isolates ⟨"x:y", "z"⟩ ⟨"x", "y:z"⟩) := by
  have slash : (⟨"x/y", "z"⟩ : LeaseName) ≠ ⟨"x", "y/z"⟩ := by decide
  have colon : (⟨"x:y", "z"⟩ : LeaseName) ≠ ⟨"x", "y:z"⟩ := by decide
  exact ⟨⟨MemoryStore.not_isolates slash (by decide),
      fun link => Redis.Lock.isolates link slash (by decide)⟩,
    Redis.Lock.not_isolates colon (by decide), MemoryStore.isolates colon (by decide)⟩

/-! ## The lease of an election -/

/-- The lease that the settings of an election ask for. -/
def ElectionSettings.lease (s : ElectionSettings) : LeaseName := ⟨s.effectiveNamespace, s.name⟩

/-- The handle of an election is for the lease that its settings ask for. -/
theorem ElectionSettings.lease_of_prepare {s : ElectionSettings} {identity : String}
    {candidate : Candidate} {handle : LockHandle}
    (prepared : s.prepare identity = .ok (candidate, handle)) :
    handle = .memory s.lease.memoryKey identity ∨
      ∃ address lock, handle = .redis address lock ∧ lock.lease = s.lease := by
  unfold prepare at prepared
  split at prepared
  · cases prepared
  · split at prepared
    · cases prepared
    · split at prepared
      · cases prepared
      · rename_i opened
        cases prepared
        unfold openLock at opened
        split at opened
        · cases opened
          exact .inl rfl
        · split at opened
          · cases opened
            exact .inr ⟨_, _, rfl, rfl⟩
          · cases opened
        · cases opened

end LeaderLease
