import LeaderLease.Scenario.Agenda
import LeaderLease.Scenario.Participant
import LeaderLease.Store.Memory

/-!
# Scenarios

Elections over one store in memory on a clock that moves only when nothing is left to do at its
instant. `Scenario.rest` lets every ready task take its turn; `Scenario.advance` moves the clock
from one timer to the next.
-/

set_option autoImplicit false

namespace LeaderLease

structure Scenario where
  /-- Milliseconds since the start. -/
  clock : Nat := 0
  /-- Readings of the wall clock so far; no two agree. -/
  readings : Nat := 0
  store : MemoryStore := Table.empty
  participants : Table String Participant := Table.empty
  /-- The signals that termination was handled, by name. -/
  done : Table String Bool := Table.empty
  agenda : Agenda := {}

namespace Scenario

def now (s : Scenario) : Instant := .ofMillis s.clock

/-- The wall clock starts in the year 2025 and moves on with every reading. -/
def wall (s : Scenario) : Timestamp := .ofUnix (1750000000 + (s.readings : Int)) 0

def modify (s : Scenario) (id : String) (f : Participant → Participant) : Scenario :=
  { s with participants := s.participants.modify id f }

def wake (s : Scenario) (id : String) (role : Role) : Scenario :=
  { s with agenda := s.agenda.wake ⟨id, role⟩ }

def wakeIf (s : Scenario) (condition : Bool) (id : String) (role : Role) : Scenario :=
  if condition then s.wake id role else s

def note (s : Scenario) (id : String) (text : String) : Scenario :=
  s.modify id fun p => p.note s.clock text

def isDone (s : Scenario) (name : String) : Bool := (s.done.get? name).getD false

/-- Cancels the scope of the work and wakes the work if it waits for that. -/
def cancelWork (s : Scenario) (id : String) : Scenario :=
  match s.participants.get? id with
  | none => s
  | some p =>
    if p.workScope then s
    else (s.modify id fun p => { p with workScope := true }).wakeIf p.workWaits id .work

/-- Cancels the scope of an election: first the work is woken, then the listener, then the run. -/
def cancelScope (s : Scenario) (id : String) (wakeListener : Bool) : Scenario :=
  match s.participants.get? id with
  | none => s
  | some p =>
    if p.scope then s
    else
      (((s.cancelWork id).modify id fun p => { p with scope := true }).wakeIf
        (wakeListener && p.listening) id .listener).wakeIf p.runWaitsForScope id .run

/-- Cancels the context, and with it the scopes below it. -/
def cancelContext (s : Scenario) (id : String) : Scenario :=
  match s.participants.get? id with
  | none => s
  | some p =>
    if p.context then s
    else
      let s := s.modify id fun p => { p with context := true }
      if p.run.isNone then s.cancelWork id else s.cancelScope id true

/-- Cancels the token that the listener of an election watches. -/
def pullTrigger (s : Scenario) (id : String) : Scenario :=
  match s.participants.get? id with
  | none => s
  | some p =>
    if p.triggered then s
    else
      (s.modify id fun p => { p with triggered := true }).wakeIf
        (p.listening && !p.scope) id .listener

/-- Fires a signal; only the first time counts. -/
def fireDone (s : Scenario) (name : String) : Bool × Scenario :=
  if s.isDone name then (false, s) else (true, { s with done := s.done.put name true })

/-- Lets an effect of a run happen. -/
def apply (id : String) (s : Scenario) : Effect → Scenario
  | .publish state => s.modify id fun p => { p with state := some state }
  | .report holder => s.modify id fun p => { p with holders := p.holders ++ [(s.clock, holder)] }
  | .startWork =>
    (s.modify id fun p => { p with work := .running, workScope := p.scope }).wake id .work
  | .cancelWork => s.cancelWork id
  | .abortWork =>
    match s.participants.get? id with
    | some p =>
      if p.work = .running then
        (s.modify id fun p => { p with abortRequested := true }).wake id .work
      else s
    | none => s
  | .stopListening => s.modify id fun p => { p with listening := false }
  | .announceDone =>
    match s.participants.get? id with
    | some p =>
      let (first, s) := s.fireDone p.doneName
      if first then s
      else s.modify id fun p => p.write [.plain .debug "Done signal already fired"]
    | none => s

/-- A step of a run: the run behind it, its effects, and the lines that go with it. -/
structure Step where
  run : Run
  effects : List Effect
  lines : List LogLine

/-- The run takes the answer to a read. -/
def readStep (s : Scenario) (r : Run) (answer : ReadAnswer) : Step :=
  let (run, effects) := r.receiveRead s.now answer
  ⟨run, effects, r.readLines s.now answer⟩

/-- The run takes the answer to a write. -/
def writeStep (s : Scenario) (r : Run) (answer : WriteAnswer) : Step :=
  let (run, effects) := r.receiveWrite s.now answer
  ⟨run, effects, r.writeLines s.now answer⟩

/-- The answer of the store to a call, and the call's effect. -/
def perform (s : Scenario) (r : Run) : Call → Step × Scenario
  | .get => (s.readStep r (.ok (s.store.get? r.candidate.resource)), s)
  | .write w =>
    let (answer, store) := s.store.write r.candidate.resource w
    (s.writeStep r answer, { s with store })

/-- A call under a fault whose delay is over. -/
def performFaulty (s : Scenario) (r : Run) (f : Fault) (call : Call) : Step × Scenario :=
  match f.error, call with
  | none, call => s.perform r call
  | some e, .get => (s.readStep r (.error e), s)
  | some e, .write w =>
    if f.applied then
      match s.store.write r.candidate.resource w with
      | (.ok _, store) => (s.writeStep r (.error e), { s with store })
      | (.error e, store) => (s.writeStep r (.error e), { s with store })
    else (s.writeStep r (.error e), s)

/-- Puts a run that took a step back and lets its effects happen. -/
def settle (s : Scenario) (id : String) (step : Step) : Scenario :=
  step.effects.foldl (apply id)
    (s.modify id fun p => { p with run := some step.run }.write step.lines)

/-- The timer of a run that suspends itself: that of its ticker, or none. -/
def suspendRun (s : Scenario) (id : String) (r : Run) : Scenario :=
  match r.stage with
  | .waiting (.acquire t) | .waiting (.lead t _) | .waiting (.windDown t _) =>
    { s with agenda := s.agenda.setTimer (Instant.ceilMillis t.due) ⟨id, .run⟩ }
  | _ => { s with agenda := s.agenda.clearTimer ⟨id, .run⟩ }

/-- Lets a run go on until it waits. The fuel bounds the steps of one turn; what is left over
goes to the next turn. -/
def resumeRun (id : String) : Nat → Scenario → Scenario
  | 0, s => s.wake id .run
  | fuel + 1, s =>
    match s.participants.get? id with
    | none => s
    | some p =>
      match p.run with
      | none => s
      | some r =>
        match r.call? with
        | some call =>
          match p.delayed with
          | some f =>
            if s.agenda.hasTimer ⟨id, .run⟩ then s
            else
              let s := s.modify id fun p => { p with delayed := none }
              let (step, s) := s.performFaulty r f call
              resumeRun id fuel (s.settle id step)
          | none =>
            match p.faults with
            | none =>
              let (step, s) := s.perform r call
              resumeRun id fuel (s.settle id step)
            | some faults =>
              let s := s.modify id fun p => { p with calls := p.calls ++ [(s.clock, call.kind)] }
              match faults.find? fun f => f.matches s.clock call with
              | none =>
                let (step, s) := s.perform r call
                resumeRun id fuel (s.settle id step)
              | some f =>
                if f.delay = 0 then
                  let (step, s) := s.performFaulty r f call
                  resumeRun id fuel (s.settle id step)
                else
                  let s := s.modify id fun p => { p with delayed := some f }
                  { s with agenda := s.agenda.setTimer (s.clock + f.delay) ⟨id, .run⟩ }
        | none =>
          let view : View := ⟨s.now, s.wall, p.scope, p.work⟩
          match r.act view with
          | some (run, effects) =>
            let s := { s with
              readings := s.readings + 1, agenda := s.agenda.clearTimer ⟨id, .run⟩ }
            resumeRun id fuel (s.settle id ⟨run, effects, r.actLines view⟩)
          | none => s.suspendRun id r

/-- The listener turns a trigger into a request, as long as it listens. -/
def resumeListener (id : String) (s : Scenario) : Scenario :=
  match s.participants.get? id with
  | some p => if p.listening && !p.scope && p.triggered then s.cancelScope id false else s
  | none => s

/-- The work has ended; a run that waits for that is woken. -/
def finishWork (s : Scenario) (id : String) (result : WorkResult) : Scenario :=
  match s.participants.get? id with
  | some p =>
    (s.modify id fun p => { p with work := .finished result }).wakeIf p.runWaitsForWork id
      .run
  | none => s

/-- Lets leader work go on until it waits or ends; the fuel exceeds the length of its script. -/
def runWork (id : String) : Nat → Scenario → Scenario
  | 0, s => s
  | fuel + 1, s =>
    match s.participants.get? id with
    | none => s
    | some p =>
      let goOn (s : Scenario) : Scenario :=
        runWork id fuel
          (s.modify id fun p => { p with script := p.script.drop 1, sleeping := false })
      match p.script with
      | [] => (s.note id "end").finishWork id .done
      | .wait :: _ => if p.workScope then goOn (s.note id "cancelled") else s
      | .sleep millis :: _ =>
        if p.sleeping then
          if s.agenda.hasTimer ⟨id, .work⟩ then s else goOn s
        else if millis = 0 then goOn s
        else
          let s := s.modify id fun p => { p with sleeping := true }
          { s with agenda := s.agenda.setTimer (s.clock + millis) ⟨id, .work⟩ }
      | .log text :: _ => goOn (s.note id text)
      | .check :: _ => goOn (s.note id ("token=" ++ toString p.workScope))
      | .cancel :: _ => goOn (s.cancelContext id)
      | .trigger :: _ => goOn (s.pullTrigger id)
      | .crash text :: _ =>
        (s.note id "panic").finishWork id (.crashed (crashMessage text))
      | .fail chain :: _ => (s.note id "fail").finishWork id (.failed (chainText chain))

/-- Drops leader work that has not ended. -/
def dropWork (s : Scenario) (id : String) : Scenario :=
  let s := (s.note id "dropped").modify id fun p => { p with work := .aborted }
  { s with agenda := s.agenda.clearTimer ⟨id, .work⟩ }

def resumeWork (id : String) (s : Scenario) : Scenario :=
  match s.participants.get? id with
  | none => s
  | some p =>
    if p.work ≠ .running then s
    else if p.abortRequested then s.dropWork id
    else
      let s :=
        if p.begun then s
        else
          (s.note id ("begin cancelled=" ++ toString p.workScope)).modify id fun p =>
            { p with begun := true }
      runWork id (p.script.length + 1) s

/-- The most steps a run takes in one turn. -/
def turnLength : Nat := 128

/-- Work without an election goes after everything else. -/
def yields (s : Scenario) (t : Task) : Bool :=
  match s.participants.get? t.participant with
  | some p => p.run.isNone
  | none => false

/-- Lets one ready task take its turn; nothing when none is ready. -/
def turn (s : Scenario) : Option Scenario :=
  match s.agenda.next? s.yields with
  | none => none
  | some (t, agenda) =>
    let s := { s with agenda }
    some <| match t.role with
      | .listener => resumeListener t.participant s
      | .run => resumeRun t.participant turnLength s
      | .work => resumeWork t.participant s

/-- The most turns at one instant. -/
def turnLimit : Nat := 1000000

/-- Lets ready tasks take their turns until none is ready. -/
def restFor : Nat → Scenario → Scenario
  | 0, s => s
  | fuel + 1, s =>
    match s.turn with
    | some s => restFor fuel s
    | none => s

def rest (s : Scenario) : Scenario := restFor turnLimit s

/-- Wakes what is due at the present instant and lets it rest. -/
def arrive (s : Scenario) : Scenario := rest { s with agenda := s.agenda.fire s.clock }

/-- Moves the clock from timer to timer until `stop` holds, or to `limit`, where nothing is woken
yet. The fuel is the number of instants up to the limit. -/
def advanceFor (limit : Nat) (stop : Scenario → Bool) : Nat → Scenario → Scenario
  | 0, s => s
  | fuel + 1, s =>
    if stop s then s
    else
      match s.agenda.nextDue? with
      | some due =>
        if due < limit then advanceFor limit stop fuel (arrive { s with clock := due })
        else { s with clock := limit }
      | none => { s with clock := limit }

def advance (s : Scenario) (limit : Nat) (stop : Scenario → Bool) : Scenario :=
  advanceFor limit stop (limit - s.clock + 1) s

end Scenario

end LeaderLease
