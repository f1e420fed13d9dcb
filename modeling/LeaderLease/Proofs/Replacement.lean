import LeaderLease.Proofs.Dealings

/-!
# What a run replaces

`Log.watch` reads from the log what a member has seen of its lease, and when. The instant that a run
keeps in its sighting is the first of a stretch of sights with one lease (`Run.Watches.lasts`), and
what it is about to write goes by the one sight of the attempt (`Run.Watches.updates`). So a run
replaces nothing but what it has read: `unchanged_or_replaces` proves it for every move that is not
somebody else's write.
-/

set_option autoImplicit false

namespace LeaderLease

open Contest (arrival IsNotice)

/-- An entry as a member saw it. -/
structure Sight where
  time : Instant
  entry : Entry
deriving DecidableEq, Repr

/-- What a member has seen of its lease, the latest last. -/
structure Watch where
  sights : List Sight
  /-- The sights since its latest attempt began. -/
  current : List Sight

namespace Watch

def start : Watch := ⟨[], []⟩

def attempt (w : Watch) : Watch := { w with current := [] }

def see (w : Watch) (s : Sight) : Watch := ⟨w.sights ++ [s], w.current ++ [s]⟩

/-- The watch of a member after one more fact. -/
def add (id : Nat) (w : Watch) : Fact → Watch
  | .attempted i _ => if i = id then w.attempt else w
  | .observed i time e => if i = id then w.see ⟨time, e⟩ else w
  | _ => w

def arrive (w : Watch) : Stage → Watch
  | .reading _ _ => w.attempt
  | _ => w

def found (w : Watch) (now : Instant) : ReadAnswer → Watch
  | .ok (some e) => w.see ⟨now, e⟩
  | _ => w

def answered (w : Watch) (now : Instant) : WriteAnswer → Watch
  | .ok e => w.see ⟨now, e⟩
  | .error _ => w

/-- The sights end with a stretch in which the lease was this one at each of them, from an instant
on. -/
def Lasts (w : Watch) (l : Lease) (since : Instant) : Prop :=
  ∃ older first span, w.sights = older ++ first :: span ∧ first.time = since ∧
    ∀ s ∈ first :: span, s.entry.lease = l

theorem lasts_see {w : Watch} {l : Lease} {since now : Instant} {e : Entry}
    (lasts : w.Lasts l since) (same : e.lease = l) : (w.see ⟨now, e⟩).Lasts l since := by
  obtain ⟨older, first, span, split, time, alike⟩ := lasts
  refine ⟨older, first, span ++ [⟨now, e⟩], ?_, time, ?_⟩
  · simp [see, split]
  · intro s member
    rw [← List.cons_append] at member
    rcases List.mem_append.mp member with member | member
    · exact alike s member
    · cases List.mem_singleton.mp member
      exact same

theorem lasts_anew (w : Watch) (now : Instant) (e : Entry) :
    (w.see ⟨now, e⟩).Lasts e.lease now := by
  refine ⟨w.sights, ⟨now, e⟩, [], rfl, rfl, ?_⟩
  intro s member
  cases List.mem_singleton.mp member
  rfl

end Watch

/-- What the log says a member has seen. -/
def Log.watch (log : Log) (id : Nat) : Watch := log.foldl (Watch.add id) .start

namespace Log

theorem watch_append (log more : Log) (id : Nat) :
    watch (log ++ more) id = more.foldl (Watch.add id) (log.watch id) := List.foldl_append

theorem watch_unchanged {log more : Log} {id : Nat}
    (silent : ∀ fact ∈ more, ∀ w : Watch, w.add id fact = w) :
    watch (log ++ more) id = log.watch id := by
  rw [watch_append]
  exact foldl_unchanged silent _

theorem watch_of_elsewhere {log more : Log} {id : Nat}
    (elsewhere : ∀ fact ∈ more, fact.member? ≠ some id) :
    watch (log ++ more) id = log.watch id := by
  refine watch_unchanged fun fact member w => ?_
  have about := elsewhere fact member
  cases fact with
  | attempted i time | observed i time e => exact if_neg fun same => about (congrArg some same)
  | _ => rfl

theorem watch_of_notices {log more : Log} {id i : Nat}
    (notices : ∀ fact ∈ more, IsNotice i fact) : watch (log ++ more) id = log.watch id := by
  refine watch_unchanged fun fact member w => ?_
  have notice := notices fact member
  cases fact <;> first | rfl | exact False.elim notice

theorem watch_facts (log : Log) (id : Nat) (now : Instant) (m : Member)
    (step : Run × List Effect) :
    watch (log ++ m.facts id now step) id = (log.watch id).arrive step.1.stage := by
  have notices : watch (log ++ _) id = log.watch id := watch_of_notices
    (Contest.isNotice_affectAll id { m with run := step.1 } step.2)
  rw [Member.facts, ← List.append_assoc, watch_append, notices]
  cases stage : step.1.stage <;> simp [arrival, stage, Watch.add, Watch.arrive]

theorem watch_readFacts (log : Log) (id : Nat) (now : Instant) (answer : ReadAnswer) :
    watch (log ++ readFacts id now answer) id = (log.watch id).found now answer := by
  rw [watch_append]
  cases answer with
  | ok found => cases found <;> simp [readFacts, Watch.add, Watch.found]
  | error err => rfl

theorem watch_writeFacts (log : Log) (id : Nat) (now : Instant) (key : String)
    (answer : WriteAnswer) :
    watch (log ++ writeFacts id now key answer) id = (log.watch id).answered now answer := by
  rw [watch_append]
  cases answer <;> simp [writeFacts, Watch.add, Watch.answered]

theorem watch_requestFacts (log : Log) (id : Nat) (m : Member) :
    watch (log ++ m.requestFacts id) id = log.watch id := by
  refine watch_unchanged fun fact member w => ?_
  unfold Member.requestFacts at member
  split at member <;> simp only [List.mem_cons, List.not_mem_nil, or_false] at member
  · rcases member with rfl | rfl <;> rfl
  · cases member
    rfl

end Log

/-! ## What a run goes by -/

/-- What a run keeps in its sighting and is about to write is what its member has seen. -/
structure Run.Watches (r : Run) (w : Watch) : Prop where
  seen : r.sighting.seen = w.sights.getLast?.map (·.entry)
  lasts : ∀ e, r.sighting.seen = some e → w.Lasts e.lease r.sighting.since
  reading : ∀ goal wall, r.stage = .reading goal wall → w.current = []
  creates : ∀ goal l, r.stage = .writing goal (.create l) → w.current = []
  /-- An update replaces the one entry seen in the attempt, and a foreign lease only when it has
  lasted for its duration. -/
  updates : ∀ goal version l, r.stage = .writing goal (.update version l) →
    ∃ s, w.current = [s] ∧ w.sights.getLast? = some s ∧ s.entry.version = version ∧
      (s.entry.lease.holder ≠ "" → s.entry.lease.holder ≠ r.candidate.identity →
        r.sighting.since + s.entry.lease.duration.nanos ≤ s.time)

namespace Watch

@[simp] theorem arrive_sights (w : Watch) (stage : Stage) : (w.arrive stage).sights = w.sights := by
  unfold arrive
  split <;> rfl

theorem arrive_of_unread {w : Watch} {stage : Stage}
    (unread : ∀ goal wall, stage ≠ .reading goal wall) : w.arrive stage = w := by
  unfold arrive
  split
  · exact absurd rfl (unread _ _)
  · rfl

end Watch

namespace Run

variable {r next : Run} {w : Watch} {now : Instant} {effects : List Effect}

theorem unread_failed (r : Run) (now : Instant) (goal goal' : Goal) (wall : Timestamp) :
    (r.failed now goal).stage ≠ .reading goal' wall := by
  rcases failed_cases r now goal with same | ⟨-, same | same⟩ <;> rw [same] <;> exact nofun

theorem unwritten_failed (r : Run) (now : Instant) (goal goal' : Goal) (w : Write) :
    (r.failed now goal).stage ≠ .writing goal' w := by
  rcases failed_cases r now goal with same | ⟨-, same | same⟩ <;> rw [same] <;> exact nofun

theorem unwritten_handBack (r : Run) (wall : Timestamp) (verdict : Verdict) (goal : Goal)
    (w : Write) : (r.handBack wall verdict).stage ≠ .writing goal w := by
  rcases handBack_cases r wall verdict with same | ⟨e, -, -, same⟩ <;> rw [same] <;> exact nofun

theorem unread_of_reads {goal : Goal} {wall : Timestamp} {answer : ReadAnswer}
    (reads : r.Reads now goal wall answer next effects) :
    ∀ goal wall, next.stage ≠ .reading goal wall := by
  cases reads with
  | unreadable | held => exact unread_failed _ now goal
  | absent | own | free | overflow => exact fun _ _ => nofun

theorem unread_of_writes {answer : WriteAnswer} (writes : r.Writes now answer next effects) :
    ∀ goal wall, next.stage ≠ .reading goal wall := by
  cases writes with
  | @succeeded goal => cases goal <;> exact fun _ _ => nofun
  | @failed goal => exact unread_failed _ now goal
  | released | kept | exhausted => exact fun _ _ => nofun

namespace Watches

theorem start (candidate : Candidate) (now : Instant) :
    (Run.start candidate now).Watches .start where
  seen := rfl
  lasts := by
    intro e seen
    cases seen
  reading := by
    intro goal wall stage
    cases stage
  creates := by
    intro goal l stage
    cases stage
  updates := by
    intro goal version l stage
    cases stage

theorem act {v : View} (acts : r.Acts v next effects) (watches : r.Watches w) :
    next.Watches (w.arrive next.stage) := by
  have unwritten : ∀ goal w', next.stage ≠ .writing goal w' := by
    cases acts with
    | finish stage | conclude stage => exact unwritten_handBack r _ _
    | _ => exact fun _ _ => nofun
  exact {
    seen := by
      rw [acts.sighting, Watch.arrive_sights]
      exact watches.seen
    lasts := by
      intro e seen
      rw [acts.sighting] at seen ⊢
      obtain ⟨older, first, span, split, lasts⟩ := watches.lasts e seen
      exact ⟨older, first, span, (w.arrive_sights _).trans split, lasts⟩
    reading := by
      intro goal wall stage
      rw [stage]
      rfl
    creates := fun goal l stage => absurd stage (unwritten _ _)
    updates := fun goal version l stage => absurd stage (unwritten _ _) }

/-- A run that has seen nothing new, and neither reads nor updates next. -/
theorem stay (watches : r.Watches w) (sighting : next.sighting = r.sighting)
    (unread : ∀ goal wall, next.stage ≠ .reading goal wall)
    (creates : ∀ goal l, next.stage = .writing goal (.create l) → w.current = [])
    (unchanged : ∀ goal version l, next.stage ≠ .writing goal (.update version l)) :
    next.Watches w where
  seen := by
    rw [sighting]
    exact watches.seen
  lasts := by
    rw [sighting]
    exact watches.lasts
  reading := fun goal wall stage => absurd stage (unread goal wall)
  creates := creates
  updates := fun goal version l stage => absurd stage (unchanged goal version l)

/-- A run that has just looked, and neither reads nor creates next. -/
theorem look {e : Entry} (watches : r.Watches w)
    (sighting : next.sighting = r.sighting.observe now e)
    (unread : ∀ goal wall, next.stage ≠ .reading goal wall)
    (uncreated : ∀ goal l, next.stage ≠ .writing goal (.create l))
    (updates : ∀ goal version l, next.stage = .writing goal (.update version l) →
      w.current = [] ∧ e.version = version ∧
        (e.lease.holder ≠ "" → e.lease.holder ≠ next.candidate.identity →
          next.sighting.since + e.lease.duration.nanos ≤ now)) :
    next.Watches (w.see ⟨now, e⟩) where
  seen := by
    rw [sighting, Watch.see, List.getLast?_concat]
    rfl
  lasts := by
    intro e' seen
    rw [sighting] at seen ⊢
    cases Option.some.inj seen
    simp only [Sighting.observe]
    split
    · rename_i same
      obtain ⟨before, sawBefore, unchanged⟩ := Option.map_eq_some_iff.mp same
      have lasts := watches.lasts before sawBefore
      rw [unchanged] at lasts
      exact Watch.lasts_see lasts rfl
    · exact Watch.lasts_anew w now e
  reading := fun goal wall stage => absurd stage (unread goal wall)
  creates := fun goal l stage => absurd stage (uncreated goal l)
  updates := by
    intro goal version l stage
    obtain ⟨none, same, spent⟩ := updates goal version l stage
    refine ⟨⟨now, e⟩, ?_, List.getLast?_concat, same, spent⟩
    rw [Watch.see, none]
    rfl

theorem read {goal : Goal} {wall : Timestamp} {answer : ReadAnswer}
    (reads : r.Reads now goal wall answer next effects) (stage : r.stage = .reading goal wall)
    (watches : r.Watches w) : next.Watches (w.found now answer) := by
  have none := watches.reading goal wall stage
  have unread := unread_of_reads reads
  cases reads with
  | unreadable err =>
      refine watches.stay (failed_sighting r now goal) unread ?_ ?_
      · exact fun goal' l writing => absurd writing (unwritten_failed r now goal _ _)
      · exact fun goal' version l => unwritten_failed r now goal _ _
  | absent => exact watches.stay rfl unread (fun _ _ _ => none) (fun _ _ _ => nofun)
  | held e other live =>
      refine watches.look (failed_sighting _ now goal) unread ?_ ?_
      · exact fun goal' l => unwritten_failed _ now goal _ _
      · exact fun goal' version l writing => absurd writing (unwritten_failed _ now goal _ _)
  | own e mine =>
      refine watches.look rfl unread (fun _ _ => nofun) fun goal' version l writing => ?_
      cases writing
      refine ⟨none, rfl, fun _ notMine => absurd ?_ notMine⟩
      exact ((Lease.isHeldBy_iff _ _).mp mine).1
  | free e notMine spent following =>
      refine watches.look rfl unread (fun _ _ => nofun) fun goal' version l writing => ?_
      cases writing
      exact ⟨none, rfl, spent⟩
  | overflow e beyond => exact watches.look rfl unread (fun _ _ => nofun) (fun _ _ _ => nofun)

theorem write {answer : WriteAnswer} (writes : r.Writes now answer next effects)
    (watches : r.Watches w) : next.Watches (w.answered now answer) := by
  have unread := unread_of_writes writes
  cases writes with
  | @succeeded goal w' e stage =>
      refine watches.look (succeeded_sighting _ now goal) unread ?_ ?_
      · cases goal <;> exact fun _ _ => nofun
      · cases goal <;> exact fun _ _ _ => nofun
  | @failed goal w' err stage inRange =>
      refine watches.stay (failed_sighting r now goal) unread ?_ ?_
      · exact fun goal' l writing => absurd writing (unwritten_failed r now goal _ _)
      · exact fun goal' version l => unwritten_failed r now goal _ _
  | released e stage => exact watches.look rfl unread (fun _ _ => nofun) (fun _ _ _ => nofun)
  | kept stage inRange => exact watches.stay rfl unread (fun _ _ => nofun) (fun _ _ _ => nofun)
  | exhausted => exact watches.stay rfl unread (fun _ _ => nofun) (fun _ _ _ => nofun)

theorem turn {id : Nat} {m after : Member} {facts : List Fact} {log : Log}
    (turn : Turn id now m after facts) (watches : m.run.Watches (log.watch id)) :
    after.run.Watches (Log.watch (log ++ facts) id) := by
  cases turn with
  | act acts =>
      rw [Member.after_run, Log.watch_facts]
      exact watches.act acts
  | read stage reads =>
      rw [Member.after_run, ← List.append_assoc, Log.watch_facts, Log.watch_readFacts,
        Watch.arrive_of_unread (unread_of_reads reads)]
      exact watches.read reads stage
  | write called writes =>
      rw [Member.after_run, ← List.append_assoc, Log.watch_facts, Log.watch_writeFacts,
        Watch.arrive_of_unread (unread_of_writes writes)]
      exact watches.write writes
  | request =>
      rw [Log.watch_requestFacts]
      exact watches
  | trigger =>
      rw [List.append_nil]
      exact watches
  | finish =>
      rw [Log.watch_append]
      exact watches

end Watches

end Run

namespace Contest

/-- Every member goes by what it has seen. -/
def IsWatchful (c : Contest) : Prop :=
  ∀ id m, c.members.get? id = some m → m.run.Watches (c.log.watch id)

theorem isWatchful_of_play {moves : List Move} {c : Contest}
    (run : Contest.empty.play moves = some c) : c.IsWatchful := by
  refine reachable_induction ?_ ?_ run
  · intro id m present
    cases present
  intro moves c next move reached watchful step id n found
  cases part_of_step step found with
  | @start candidate fresh unused log now =>
      have unknown : ∀ fact ∈ c.log, fact.member? ≠ some id := fun fact member about =>
        unused ((chronicle_of_play reached).started fact member id about)
      have none : Log.watch ([] ++ c.log) id = .start := Log.watch_of_elsewhere unknown
      rw [List.nil_append] at none
      rw [log, fresh, Log.watch_append, none]
      exact .start candidate c.now
  | turn present turn log now =>
      rw [log]
      exact (watchful id _ present).turn turn
  | aside present elsewhere log now =>
      rw [log, Log.watch_of_elsewhere elsewhere]
      exact watchful id n present

/-! ## What a run's entry takes the place of -/

/-- What may be in the store before a member's entry. -/
inductive Replaces (c : Contest) (id : Nat) (m : Member) (e : Entry) : Prop where
  /-- Nothing, and the attempt has found nothing. -/
  | nothing (absent : c.store.get? m.run.candidate.resource = none) (version : e.version = 1)
      (unseen : (c.log.watch id).current = [])
  /-- What the attempt has read, and nothing else. A foreign lease in it has been the same at each
  sight for at least its duration. -/
  | read (s : Sight) (stored : c.store.get? m.run.candidate.resource = some s.entry)
      (version : e.version = s.entry.version + 1) (seen : (c.log.watch id).current = [s])
      (last : (c.log.watch id).sights.getLast? = some s)
      (spent : s.entry.lease.holder ≠ "" → s.entry.lease.holder ≠ m.run.candidate.identity →
        ∃ since, (c.log.watch id).Lasts s.entry.lease since ∧
          since + s.entry.lease.duration.nanos ≤ s.time)
  /-- For a release, what the run has seen last, which names it. -/
  | own (s : Sight) (stored : c.store.get? m.run.candidate.resource = some s.entry)
      (version : e.version = s.entry.version + 1)
      (last : (c.log.watch id).sights.getLast? = some s)
      (mine : s.entry.lease.isHeldBy m.run.candidate.identity = true)
      (released : e.lease.holder = "")

section Replaces

variable {c : Contest} {id : Nat} {m : Member} {e : Entry} {store : MemoryStore}

/-- An update over the version that a run has seen last finds the entry that it has seen. -/
theorem stored_of_seen {key : String} {seen : Entry} {l : Lease} (chronicle : c.Chronicle)
    (recalls : m.run.Recalls (c.log.records key)) (saw : m.run.sighting.seen = some seen)
    (run : c.store.write key (.update seen.version l) = (.ok e, store)) :
    c.store.get? key = some seen ∧ e.version = seen.version + 1 ∧ e.lease = l := by
  obtain ⟨-, lease, ⟨-, -, other⟩ | ⟨current, held, version, same⟩⟩ := MemoryStore.write_ok run
  · cases other
  · obtain ⟨x, last, rfl⟩ := chronicle.keeps.seen held
    have sameVersion := (Write.update.inj same).1
    have entry := recalls.entry_of_version (chronicle.keeps.numbered key) saw
      (List.mem_of_getLast? last) sameVersion.symm
    rw [entry] at held version
    exact ⟨held, version, lease⟩

theorem replaces_of_write {w : Write} (chronicle : c.Chronicle) (watchful : c.IsWatchful)
    (present : c.members.get? id = some m) (called : m.run.call? = some (.write w))
    (run : c.store.write m.run.candidate.resource w = (.ok e, store)) : c.Replaces id m e := by
  have watches := watchful id m present
  have recalls := chronicle.recalls id m present
  rcases Run.stage_of_write called with ⟨goal, stage⟩ | ⟨verdict, version, l, stage, rfl⟩
  · cases w with
    | create l =>
        obtain ⟨-, -, ⟨absent, first, -⟩ | ⟨current, held, next, other⟩⟩ :=
          MemoryStore.write_ok run
        · exact .nothing absent first (watches.creates goal l stage)
        · cases other
    | update version l =>
        obtain ⟨s, seen, last, rfl, spent⟩ := watches.updates goal version l stage
        have saw : m.run.sighting.seen = some s.entry := by
          rw [watches.seen, last]
          rfl
        obtain ⟨stored, next, -⟩ := stored_of_seen chronicle recalls saw run
        refine .read s stored next seen last fun held foreign => ?_
        exact ⟨_, watches.lasts s.entry saw, spent held foreign⟩
  · obtain ⟨seen, wall, saw, rfl, mine, rfl⟩ := Run.plans_of_releasing recalls.plans stage
    obtain ⟨stored, next, lease⟩ := stored_of_seen chronicle recalls saw run
    obtain ⟨s, last, same⟩ := Option.map_eq_some_iff.mp (watches.seen.symm.trans saw)
    subst same
    exact .own s stored next last mine (by rw [lease]; rfl)

/-- No move but somebody else's write changes the store, unless a member stores an entry by it; and
that takes the place only of what the member has read. -/
theorem unchanged_or_replaces {moves : List Move} {next : Contest} {move : Move}
    (run : Contest.empty.play moves = some c) (last : c.step move = some next)
    (own : ∀ key w, move ≠ .foreign key w) :
    (next.store = c.store ∧ ∀ key, next.log.records key = c.log.records key) ∨
      ∃ id m w e, move = .call id ∧ c.members.get? id = some m ∧
        m.run.call? = some (.write w) ∧
        (c.store.write m.run.candidate.resource w).1 = .ok e ∧
        next.store = c.store.put m.run.candidate.resource e ∧
        next.log.records m.run.candidate.resource =
          c.log.records m.run.candidate.resource ++ [⟨some id, c.now, e⟩] ∧
        c.Replaces id m e := by
  have chronicle := chronicle_of_play run
  have watchful := isWatchful_of_play run
  have kept : ∀ facts : Log, ¬ facts.Stores →
      ∀ key, Log.records (c.log ++ facts) key = c.log.records key :=
    fun facts silent => c.log.records_append_of_not_stores silent
  cases change_of_step last with
  | start => exact .inl ⟨rfl, kept _ (Log.not_stores_singleton (by simp))⟩
  | act => exact .inl ⟨rfl, kept _ (Log.not_stores_facts _ _ _ _)⟩
  | read =>
      exact .inl ⟨rfl, kept _ (Log.not_stores_append (Log.not_stores_readFacts _ _ _)
        (Log.not_stores_facts _ _ _ _))⟩
  | @write id m w after effects present called writes =>
      have silent := Log.not_stores_facts id c.now m (after, effects)
      generalize wrote : c.store.write m.run.candidate.resource w = answered
      obtain ⟨answer, store⟩ := answered
      cases answer with
      | ok e =>
          obtain ⟨put, -⟩ := MemoryStore.write_ok wrote
          refine .inr ⟨id, m, w, e, rfl, present, called, by rw [wrote], put, ?_,
            replaces_of_write chronicle watchful present called wrote⟩
          rw [Keeps.records_written id e silent, if_pos rfl]
      | error err => exact .inl ⟨MemoryStore.write_error wrote, kept _ silent⟩
  | request => exact .inl ⟨rfl, kept _ (Log.not_stores_requestFacts _ _)⟩
  | repeated => exact .inl ⟨rfl, fun _ => rfl⟩
  | trigger => exact .inl ⟨rfl, fun _ => rfl⟩
  | finish => exact .inl ⟨rfl, kept _ (Log.not_stores_singleton (by simp))⟩
  | vanish => exact .inl ⟨rfl, kept _ (Log.not_stores_singleton (by simp))⟩
  | foreign => exact absurd rfl (own _ _)
  | pass => exact .inl ⟨rfl, fun _ => rfl⟩

end Replaces

/-- A run wins its lease for five seconds and vanishes. Another one sees it every two seconds and
is about to take it over after six. -/
def deserted : List Move :=
  [.start 1 ⟨"a", "test/lease", .ofSeconds 5, .ofSeconds 2⟩, .act 1 (.ofUnix 0 0),
    .act 1 (.ofUnix 0 0), .call 1, .call 1, .vanish 1,
    .start 2 ⟨"b", "test/lease", .ofSeconds 5, .ofSeconds 2⟩, .act 2 (.ofUnix 0 0),
    .act 2 (.ofUnix 0 0), .call 2, .pass (.ofSeconds 2), .act 2 (.ofUnix 2 0), .call 2,
    .pass (.ofSeconds 2), .act 2 (.ofUnix 4 0), .call 2, .pass (.ofSeconds 2),
    .act 2 (.ofUnix 6 0), .call 2]

theorem unchanged_or_replaces_deserted :
    ∃ c next m e, Contest.empty.play deserted = some c ∧ c.step (.call 2) = some next ∧
      (∀ key w, Move.call 2 ≠ .foreign key w) ∧ c.members.get? 2 = some m ∧
      next.store = c.store.put m.run.candidate.resource e ∧ c.Replaces 2 m e := by
  have played : ((Contest.empty.play deserted).bind fun c => (c.step (.call 2)).map fun next =>
      ((c.store.get? "test/lease").map (·.version),
        (next.store.get? "test/lease").map (·.version))) = some (some 1, some 2) := by
    decide +kernel
  obtain ⟨c, run, rest⟩ := Option.bind_eq_some_iff.mp played
  obtain ⟨next, last, found⟩ := Option.map_eq_some_iff.mp rest
  obtain ⟨before, after⟩ := Prod.mk.inj found
  have own : ∀ key w, Move.call 2 ≠ .foreign key w := fun _ _ => nofun
  rcases unchanged_or_replaces run last own with
    ⟨same, -⟩ | ⟨id, m, w, e, call, present, -, -, put, -, replaces⟩
  · rw [same, before] at after
    cases after
  · cases call
    exact ⟨c, next, m, e, run, last, own, present, put, replaces⟩

end Contest

end LeaderLease
