import LeaderLease.Proofs.Career
import Mathlib.Data.List.Chain

/-!
# What the log keeps of a member's tenure

`Log.tenure` reads from the log when a member won its lease and tried to renew it, when it wrote the
lease last, and when it was asked to stop. Each turn of the member changes its tenure in at most one
of these: the facts of a step show there only through the stage that the step leads to, and through
the entry that it stored.
-/

set_option autoImplicit false

namespace LeaderLease

open Contest (affectAll arrival IsNotice)

structure Tenure where
  /-- When the lease was won, and when each attempt to renew it began. -/
  beats : List Instant
  /-- When the lease was written last. -/
  written : Option Instant
  /-- When leading ended on request. -/
  heeded : List Instant

namespace Tenure

def start : Tenure := ⟨[], none, []⟩

/-- An attempt begins; it counts if the lease was won before. -/
def beat (t : Tenure) (now : Instant) : Tenure :=
  if t.beats = [] then t else { t with beats := t.beats ++ [now] }

/-- The lease is written; the first time it is won by that. -/
def write (t : Tenure) (now : Instant) : Tenure :=
  { t with beats := if t.beats = [] then [now] else t.beats, written := some now }

def heed (t : Tenure) (now : Instant) : Tenure := { t with heeded := t.heeded ++ [now] }

/-- The tenure of a member after one more fact. -/
def add (id : Nat) (t : Tenure) : Fact → Tenure
  | .attempted i time => if i = id then t.beat time else t
  | .stored (some i) time _ _ => if i = id then t.write time else t
  | .relieved i time .requested => if i = id then t.heed time else t
  | _ => t

def arrive (t : Tenure) (now : Instant) : Stage → Tenure
  | .reading _ _ => t.beat now
  | .relieving .requested => t.heed now
  | _ => t

def answered (t : Tenure) (now : Instant) : WriteAnswer → Tenure
  | .ok _ => t.write now
  | .error _ => t

end Tenure

/-- What the log says about the tenure of a member. -/
def Log.tenure (log : Log) (id : Nat) : Tenure := log.foldl (Tenure.add id) .start

namespace Log

theorem tenure_append (log more : Log) (id : Nat) :
    tenure (log ++ more) id = more.foldl (Tenure.add id) (log.tenure id) := List.foldl_append

theorem tenure_unchanged {log more : Log} {id : Nat}
    (silent : ∀ fact ∈ more, ∀ t : Tenure, t.add id fact = t) :
    tenure (log ++ more) id = log.tenure id := by
  rw [tenure_append]
  exact foldl_unchanged silent _

theorem tenure_of_elsewhere {log more : Log} {id : Nat}
    (elsewhere : ∀ fact ∈ more, fact.member? ≠ some id) :
    tenure (log ++ more) id = log.tenure id := by
  refine tenure_unchanged fun fact member t => ?_
  have about := elsewhere fact member
  cases fact with
  | attempted i time => exact if_neg fun same => about (congrArg some same)
  | stored who time key e =>
      cases who with
      | none => rfl
      | some i => exact if_neg fun same => about (congrArg some same)
  | relieved i time reason =>
      cases reason with
      | requested => exact if_neg fun same => about (congrArg some same)
      | _ => rfl
  | _ => rfl

theorem tenure_of_notices {log more : Log} {id i : Nat}
    (notices : ∀ fact ∈ more, IsNotice i fact) : tenure (log ++ more) id = log.tenure id := by
  refine tenure_unchanged fun fact member t => ?_
  have notice := notices fact member
  cases fact <;> first | rfl | exact False.elim notice

/-- A step of a run shows in the tenure by the stage it leads to. -/
theorem tenure_facts (log : Log) (id : Nat) (now : Instant) (m : Member)
    (step : Run × List Effect) :
    tenure (log ++ m.facts id now step) id = (log.tenure id).arrive now step.1.stage := by
  have notices : tenure (log ++ _) id = log.tenure id := tenure_of_notices
    (Contest.isNotice_affectAll id { m with run := step.1 } step.2)
  rw [Member.facts, ← List.append_assoc, tenure_append, notices]
  cases stage : step.1.stage with
  | reading goal wall => simp [arrival, stage, Tenure.add, Tenure.arrive]
  | relieving reason => cases reason <;> simp [arrival, stage, Tenure.add, Tenure.arrive]
  | ended outcome => simp [arrival, stage, Tenure.add, Tenure.arrive]
  | _ => simp [arrival, stage, Tenure.arrive]

theorem tenure_readFacts (log : Log) (id : Nat) (now : Instant) (answer : ReadAnswer) :
    tenure (log ++ readFacts id now answer) id = log.tenure id := by
  refine tenure_unchanged fun fact member t => ?_
  unfold readFacts at member
  split at member
  · cases List.mem_singleton.mp member
    rfl
  · cases member

theorem tenure_writeFacts (log : Log) (id : Nat) (now : Instant) (key : String)
    (answer : WriteAnswer) :
    tenure (log ++ writeFacts id now key answer) id = (log.tenure id).answered now answer := by
  cases answer with
  | ok e => simp [tenure_append, writeFacts, Tenure.add, Tenure.answered]
  | error e => simp [writeFacts, Tenure.answered]

theorem tenure_requestFacts (log : Log) (id : Nat) (m : Member) :
    tenure (log ++ m.requestFacts id) id = log.tenure id := by
  refine tenure_unchanged fun fact member t => ?_
  unfold Member.requestFacts at member
  rcases List.mem_cons.mp member with rfl | member
  · rfl
  · split at member
    · cases List.mem_singleton.mp member
      rfl
    · cases member

end Log

/-! ## Instants that follow each other in one rhythm -/

/-- Each instant comes one period after the one before. -/
abbrev InStep (period : Nat) (times : List Instant) : Prop :=
  times.IsChain fun earlier later => later = earlier + period

/-- No instant comes more than one period after the one before. -/
abbrev Fresh (period : Nat) (times : List Instant) : Prop :=
  times.IsChain fun earlier later => later ≤ earlier + period

/-- A rhythm that has come to its last instant. -/
structure Steady (period : Nat) (times : List Instant) (last : Instant) : Prop where
  inStep : InStep period times
  last : times.getLast? = some last

theorem InStep.fresh {period : Nat} {times : List Instant} (inStep : InStep period times) :
    Fresh period times :=
  inStep.imp fun _ _ next => Nat.le_of_eq next

theorem steady_singleton (period : Nat) (time : Instant) : Steady period [time] time :=
  ⟨.singleton time, rfl⟩

namespace Steady

variable {period : Nat} {times : List Instant} {last : Instant}

theorem snoc (steady : Steady period times last) :
    Steady period (times ++ [last + period]) (last + period) where
  inStep := by
    refine List.isChain_append.mpr ⟨steady.inStep, .singleton _, ?_⟩
    intro earlier atEnd later atStart
    rw [steady.last] at atEnd
    cases atEnd
    cases atStart
    rfl
  last := List.getLast?_concat

theorem le_last (steady : Steady period times last) : ∀ time ∈ times, time ≤ last := by
  intro time member
  have rising : times.Pairwise (· ≤ ·) :=
    (steady.inStep.imp fun _ _ next => Nat.le.intro next.symm).pairwise
  obtain ⟨front, rfl⟩ := List.getLast?_eq_some_iff.mp steady.last
  rcases List.mem_append.mp member with member | member
  · exact (List.pairwise_append.mp rising).2.2 time member last (List.mem_singleton_self _)
  · cases List.mem_singleton.mp member
    exact Nat.le_refl _

theorem ne_nil (steady : Steady period times last) : times ≠ [] := by
  intro empty
  have none := steady.last
  rw [empty] at none
  cases none

theorem last_mem (steady : Steady period times last) : last ∈ times :=
  List.mem_of_getLast? steady.last

end Steady

end LeaderLease
