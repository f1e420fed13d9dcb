import LeaderLease.Proofs.Agreement
import LeaderLease.Proofs.Removals

/-!
# Leases that are read back

Whatever bytes a server holds, a write changes nothing but the key of its lock, and there it stores
its entry as a whole; a get changes nothing at all. If the answer to a write is heard, then either
there was an error and nothing has changed, or the entry has been stored, and every lock of the key
reads it until somebody removes the key or another write on it is made. If a reply is lost, either
may be the case. Each command, whenever it runs, makes the write or leaves the data alone
(`Lock.run_command_cases`), and so do the commands that ran before the call was cut off
(`Lock.isAtomic`). So a lease may have been created although its caller is told that the time was up
(`Lock.unheard_create`).
-/

set_option autoImplicit false

namespace LeaderLease

/-- The entry that a write is to store. -/
def Write.entry : Write → Entry
  | .create lease => ⟨1, lease⟩
  | .update version lease => ⟨version + 1, lease⟩

theorem Write.wellFormed_entry {w : Write} (proper : w.IsProper) : w.entry.WellFormed := by
  cases w with
  | create lease => exact ⟨(by decide : 1 < Entry.versionLimit), proper⟩
  | update version lease =>
      obtain ⟨room, wellFormed⟩ := proper
      exact ⟨(by omega : version + 1 < Entry.versionLimit), wellFormed⟩

/-- The command that carries a write out. -/
def Write.command (key : String) (w : Write) : Redis.Command :=
  match w with
  | .create _ => .setIfAbsent key (Text.bytes w.entry.encode)
  | .update version _ => .runScript key version (Text.bytes w.entry.encode)

namespace Redis

/-! ## Commands -/

/-- Commands of this name are run and answered. -/
structure Link.Answers (link : Link) (name : CommandName) : Prop where
  reachable : link.reachable = true
  heard : link.silent.contains name = false
  accepted : link.refused.lookup name = none

theorem Link.send_of_answers {link : Link} {command : Command}
    (answers : link.Answers command.commandName) (server : Server) :
    link.send server command = (some (server.run command).1, (server.run command).2) := by
  simp only [send, answers.heard, answers.accepted, Bool.false_eq_true, if_false]

/-- What is silent once is always silent. -/
theorem Link.send_of_silent {link : Link} {server : Server} {command : Command}
    (silent : (link.send server command).1 = none) (other : Server) :
    link.send other command = (none, other) := by
  rcases link.send_cases command with sent | ⟨reason, sent⟩ | sent
  · exact sent other
  · rw [sent] at silent
    cases silent
  · rw [sent] at silent
    cases silent

theorem Link.send_of_noScript {link : Link} {server between : Server} {key : String}
    {version : Nat} {value : List UInt8}
    (unknown : link.send server (.runScript key version value) = (some .noScript, between)) :
    between = server := by
  rcases link.send_cases (.runScript key version value) with sent | ⟨reason, sent⟩ | sent
  · cases (sent server).symm.trans unknown
  · cases (sent server).symm.trans unknown
  · obtain ⟨reply, same⟩ := Prod.mk.inj ((sent server).symm.trans unknown)
    rw [Server.run] at reply same
    split at reply
    · exact absurd (Option.some.inj reply) (Lock.swap_ne_noScript server key version value)
    · rw [if_neg ‹_›] at same
      exact same.symm

/-- The key is as a write needs it: absent for a lease to be created, or with the version that is to
be replaced. -/
def Server.Admits (server : Server) (key : String) : Write → Prop
  | .create _ => server.data.get? key = none
  | .update version _ => ∃ current, server.data.get? key = some current ∧
      server.compare current version = .ok true

theorem Server.Admits.congr {server server' : Server} {key : String} {w : Write}
    (admits : server.Admits key w) (data : server'.data = server.data)
    (foreign : server'.foreign = server.foreign) : server'.Admits key w := by
  cases w with
  | create lease => exact (congrArg (Table.get? · key) data).trans admits
  | update version lease =>
      obtain ⟨current, held, found⟩ := admits
      exact ⟨current, (congrArg (Table.get? · key) data).trans held,
        (congrFun (congrFun (compare_congr foreign) _) _).trans found⟩

/-! ## Writes -/

namespace Lock

variable {l : Lock} {link : Link} {server server' : Server} {w : Write} {ending : Ending}

/-- The write has been made, as far as the data show it. -/
structure Wrote (l : Lock) (server : Server) (w : Write) (server' : Server) : Prop where
  admitted : server.Admits l.key w
  stored : server'.data = server.data.put l.key (Text.bytes w.entry.encode)

theorem Wrote.congr {start : Server} (wrote : l.Wrote start w server')
    (data : start.data = server.data) (foreign : server.foreign = start.foreign) :
    l.Wrote server w server' where
  admitted := wrote.admitted.congr data.symm foreign
  stored := by rw [wrote.stored, data]

theorem write_cases (l : Lock) (link : Link) (server : Server) (w : Write) :
    ((l.write link server w).1 = .ok w.entry ∧ l.Wrote server w (l.write link server w).2) ∨
    ((∃ reason, (l.write link server w).1 = .error reason) ∧
      (l.write link server w).2.data = server.data) := by
  cases w with
  | create lease =>
      refine (l.create_cases link server lease).imp_left ?_
      rintro ⟨answered, absent, stored⟩
      exact ⟨answered, absent, stored⟩
  | update version lease =>
      refine (l.update_cases link server version lease).imp_left ?_
      rintro ⟨answered, -, found, stored⟩
      exact ⟨answered, found, stored⟩

theorem write_effect (l : Lock) (link : Link) (server : Server) (w : Write) :
    (l.write link server w).2.data = server.data ∨
      l.Wrote server w (l.write link server w).2 :=
  (l.write_cases link server w).symm.imp (fun refused => refused.2) fun made => made.2

theorem wrote_of_ok {e : Entry} (answered : (l.write link server w).1 = .ok e) :
    e = w.entry ∧ l.Wrote server w (l.write link server w).2 := by
  rcases l.write_cases link server w with ⟨accepted, wrote⟩ | ⟨⟨reason, refused⟩, -⟩
  · exact ⟨Except.ok.inj (answered.symm.trans accepted), wrote⟩
  · cases answered.symm.trans refused

theorem data_of_error {reason : StoreError} (answered : (l.write link server w).1 = .error reason) :
    (l.write link server w).2.data = server.data := by
  rcases l.write_cases link server w with ⟨accepted, -⟩ | ⟨-, same⟩
  · cases answered.symm.trans accepted
  · exact same

/-- A write has no effect on the other keys. -/
theorem get?_elsewhere (effect : server'.data = server.data ∨ l.Wrote server w server')
    {key : String} (other : key ≠ l.key) : server'.data.get? key = server.data.get? key := by
  rcases effect with same | wrote
  · rw [same]
  · rw [wrote.stored, Table.get?_put_of_ne _ _ other.symm]

theorem unexpected_ne_exhausted (l : Lock) (reply : Option Reply) :
    l.unexpected reply ≠ .exhausted := by
  unfold unexpected
  split <;> nofun

/-- A version that has a next one is not what a write fails for. -/
theorem write_ne_exhausted (l : Lock) (link : Link) (server : Server) (proper : w.IsProper) :
    (l.write link server w).1 ≠ .error .exhausted := by
  intro failed
  cases w with
  | create lease =>
      simp only [write, create] at failed
      repeat' split at failed
      all_goals
        first
          | cases failed
          | exact l.unexpected_ne_exhausted _ (Except.error.inj failed)
  | update version lease =>
      have room : version < Entry.versionLimit - 1 := proper.1
      have next : Entry.nextVersion? version = some (version + 1) := if_pos (by omega)
      simp only [write, update, next] at failed
      repeat' split at failed
      all_goals
        first
          | cases failed
          | exact l.unexpected_ne_exhausted _ (Except.error.inj failed)

/-! ## Writes that are cut off -/

/-- Whenever it runs, the command of a write makes the write or leaves the data alone. -/
theorem run_command_cases (l : Lock) (server : Server) (w : Write) :
    (server.run (w.command l.key)).2.data = server.data ∨
      l.Wrote server w (server.run (w.command l.key)).2 := by
  cases w with
  | create lease =>
      cases held : server.data.get? l.key with
      | none =>
          refine .inr ⟨held, ?_⟩
          simp [Write.command, Server.run, Table.contains, held]
      | some stored =>
          refine .inl ?_
          simp [Write.command, Server.run, Table.contains, held]
  | update version lease =>
      cases known : server.loaded with
      | false =>
          refine .inl ?_
          simp [Write.command, Server.run, known]
      | true =>
          have ran : server.run ((Write.update version lease).command l.key) =
              server.swap l.key version (Text.bytes (Entry.encode ⟨version + 1, lease⟩)) := by
            simp [Write.command, Write.entry, Server.run, known]
          rw [ran]
          rcases server.swap_cases l.key version _ with ⟨⟨found, stored⟩, -⟩ | ⟨same, -⟩
          · exact .inr ⟨found, stored⟩
          · exact .inl (congrArg Server.data same)

/-- A write sends its command once, or the script is not known: then the command has no effect, and
it is sent again when the script has been loaded. -/
theorem commands_cases (l : Lock) (server : Server) (w : Write) :
    l.commands server w = [] ∨ l.commands server w = [w.command l.key] ∨
      (server.run (w.command l.key)).2 = server ∧
        l.commands server w = [w.command l.key, .loadScript, w.command l.key] := by
  cases w with
  | create lease => exact .inr (.inl rfl)
  | update version lease =>
      cases following : Entry.nextVersion? version with
      | none =>
          refine .inl ?_
          simp only [commands, following]
      | some next =>
          obtain ⟨-, same⟩ := Option.ite_none_right_eq_some.mp following
          obtain rfl := Option.some.inj same
          cases known : server.loaded with
          | false =>
              refine .inr (.inr ⟨?_, ?_⟩)
              · simp [Write.command, Server.run, known]
              · simp [commands, following, known, Write.command, Write.entry]
          | true =>
              refine .inr (.inl ?_)
              simp [commands, following, known, Write.command, Write.entry]

theorem mem_commands {command : Command} (member : command ∈ l.commands server w) :
    command = w.command l.key ∨ command = .loadScript := by
  rcases l.commands_cases server w with none | once | ⟨-, again⟩
  · rw [none] at member
    cases member
  · rw [once] at member
    exact .inl (List.mem_singleton.mp member)
  · rw [again] at member
    simp only [List.mem_cons, List.not_mem_nil, or_false] at member
    rcases member with same | loads | same
    · exact .inl same
    · exact .inr loads
    · exact .inl same

/-- Whenever a command of a write runs, it makes the write or leaves the data alone. -/
theorem run_cases_of_mem {command : Command} (member : command ∈ l.commands server w)
    (later : Server) :
    (later.run command).2.data = later.data ∨ l.Wrote later w (later.run command).2 := by
  rcases mem_commands member with rfl | rfl
  · exact l.run_command_cases later w
  · exact .inl rfl

/-- However many of its commands have run, a write is made or the data are as they were. -/
theorem ran_commands_cases (l : Lock) (server : Server) (w : Write) (sent : Nat) :
    (server.ran ((l.commands server w).take sent)).data = server.data ∨
      l.Wrote server w (server.ran ((l.commands server w).take sent)) := by
  rcases l.commands_cases server w with none | once | ⟨unknown, again⟩
  · rw [none, List.take_nil]
    exact .inl rfl
  · rw [once]
    rcases sent with _ | sent
    · exact .inl rfl
    · rw [List.take_succ_cons, List.take_nil]
      exact l.run_command_cases server w
  · rw [again]
    rcases sent with _ | _ | _ | sent
    · exact .inl rfl
    · exact .inl (congrArg Server.data unknown)
    · have ran : server.ran [w.command l.key, .loadScript] = server.primed :=
        congrArg Server.primed unknown
      exact .inl ((congrArg Server.data ran).trans rfl)
    · have ran : server.ran [w.command l.key, .loadScript, w.command l.key] =
          (server.primed.run (w.command l.key)).2 :=
        congrArg (fun server : Server => (server.primed.run (w.command l.key)).2) unknown
      rw [List.take_of_length_le (by simp), ran]
      exact (l.run_command_cases server.primed w).imp_right fun wrote => wrote.congr rfl rfl

theorem runScript_of_silent (l : Lock) (link : Link) (server : Server) (version : Nat)
    (value : List UInt8) : (l.runScript link server version value).1 = none →
      (l.runScript link server version value).2 = server := by
  unfold runScript
  split
  · rename_i between unknown
    obtain rfl := Link.send_of_noScript unknown
    split
    · intro silent
      have first := Link.send_of_silent silent between
      rw [unknown] at first
      cases first
    · intro silent
      rw [Link.send_of_silent silent]
  · intro silent
    rw [Link.send_of_silent silent]

theorem unexpected_of_late {reply : Option Reply} (late : l.unexpected reply = .timedOut l.limit) :
    reply = none := by
  unfold unexpected at late
  split at late
  · rfl
  · cases late
  · cases late

/-- A write whose time is up over a link has not changed the server. -/
theorem write_of_late (l : Lock) (link : Link) (server : Server) (w : Write) :
    (l.write link server w).1 = .error (.timedOut l.limit) →
      (l.write link server w).2 = server := by
  cases w with
  | create lease =>
      unfold write create
      dsimp only
      split
      · split
        · nofun
        · nofun
        · rename_i sent
          intro late
          obtain rfl := unexpected_of_late (Except.error.inj late)
          have unsent := Link.send_of_silent (congrArg Prod.fst sent) server
          exact congrArg Prod.snd (sent.symm.trans unsent)
      · exact fun _ => rfl
  | update version lease =>
      unfold write update
      dsimp only
      split
      · split
        · nofun
        · split
          · nofun
          · nofun
          · nofun
          · rename_i ran
            intro late
            obtain rfl := unexpected_of_late (Except.error.inj late)
            have unsent := l.runScript_of_silent link server version _ (congrArg Prod.fst ran)
            exact (congrArg Prod.snd ran).symm.trans unsent
      · exact fun _ => rfl

/-- Every write over a link goes one of the ways. -/
theorem exists_goes (l : Lock) (link : Link) (server : Server) (w : Write) :
    ∃ ending, l.Goes server w ending (l.write link server w).2 ∧
      ending.answer l = (l.write link server w).1 := by
  by_cases late : (l.write link server w).1 = .error (.timedOut l.limit)
  · refine ⟨.lost .late, ?_, late.symm⟩
    rw [l.write_of_late link server w late]
    exact .lost .late 0
  · exact ⟨.heard _, .heard link late, rfl⟩

theorem write_of_heard {answer : WriteAnswer} (goes : l.Goes server w (.heard answer) server') :
    ∃ link, l.write link server w = (answer, server') := by
  generalize heard : Ending.heard answer = ending at goes
  cases goes with
  | lost => cases heard
  | heard link =>
      cases heard
      exact ⟨link, rfl⟩

theorem goes_cases (goes : l.Goes server w ending server') :
    server'.data = server.data ∨ l.Wrote server w server' := by
  cases goes with
  | heard link => exact l.write_effect link server w
  | lost loss sent => exact l.ran_commands_cases server w sent

/-- Where every command is answered, a write has run all of its commands. -/
theorem ran_commands (l : Lock) (server : Server) (proper : w.IsProper) :
    server.ran (l.commands server w) = (l.write {} server w).2 := by
  cases w with
  | create lease =>
      have ran : server.ran (l.commands server (.create lease)) =
          (server.run (.setIfAbsent l.key (Text.bytes (Entry.encode ⟨1, lease⟩)))).2 := rfl
      rw [ran]
      simp only [write, create, if_true, send_run]
      split
      all_goals
        rename_i answered
        exact congrArg Prod.snd answered
  | update version lease =>
      obtain ⟨data, loaded, foreign⟩ := server
      have room : version < Entry.versionLimit - 1 := proper.1
      have next : Entry.nextVersion? version = some (version + 1) := if_pos (by omega)
      have behind : (l.write {} ⟨data, loaded, foreign⟩ (.update version lease)).2 =
          (Server.swap ⟨data, true, foreign⟩ l.key version
            (Text.bytes (Entry.encode ⟨version + 1, lease⟩))).2 := by
        simp only [write, update, if_true, next, runScript_eq, Server.primed]
        split
        all_goals
          rename_i answered
          exact (congrArg Prod.snd answered).symm
      rw [behind]
      cases loaded <;> simp [commands, next, Server.ran, Server.run]

end Lock

/-! ## What is under a key between two calls -/

/-- On the way from one server to another nobody removes the key and no write on it is made, neither
by a call nor by a command that runs after its call has ended. -/
inductive Server.Spared (key : String) (start : Server) : Server → Prop where
  | start : Spared key start start
  | get {server : Server} (spared : Spared key start server) (l : Lock) (link : Link) :
      Spared key start (l.get link server).2
  | write {server server' : Server} (spared : Spared key start server) {l : Lock} {w : Write}
      {ending : Ending} (goes : l.Goes server w ending server')
      (unmade : l.key = key → server'.data = server.data) : Spared key start server'
  | late {server begun : Server} (spared : Spared key start server) {l : Lock} {w : Write}
      {command : Command} (sent : command ∈ l.commands begun w)
      (unmade : l.key = key → (server.run command).2.data = server.data) :
      Spared key start (server.run command).2
  | removal {server : Server} (spared : Spared key start server) {k : String} (other : k ≠ key) :
      Spared key start { server with data := server.data.erase k }

theorem Lock.get?_of_unmade {l : Lock} {server server' : Server} {w : Write} {key : String}
    (effect : server'.data = server.data ∨ l.Wrote server w server')
    (unmade : l.key = key → server'.data = server.data) :
    server'.data.get? key = server.data.get? key := by
  by_cases same : l.key = key
  · rw [unmade same]
  · exact get?_elsewhere effect (Ne.symm same)

/-- What is under the key stays there. -/
theorem Server.Spared.get?_eq {key : String} {start server : Server}
    (spared : Spared key start server) : server.data.get? key = start.data.get? key := by
  induction spared with
  | start => rfl
  | get _ l link ih => exact (congrArg (Table.get? ·.data key) (l.get_cases link _).1).trans ih
  | write _ goes unmade ih => exact (Lock.get?_of_unmade (Lock.goes_cases goes) unmade).trans ih
  | late _ sent unmade ih =>
      exact (Lock.get?_of_unmade (Lock.run_cases_of_mem sent _) unmade).trans ih
  | removal _ other ih => exact ((Table.get?_erase _ _ _).trans (if_neg other)).trans ih

namespace Lock

variable {l : Lock} {server : Server} {e : Entry}

/-- Over every link that answers a get, the lock reads the entry and leaves the server alone, and
over no link does it read anything else. -/
structure ReadsExactly (l : Lock) (server : Server) (e : Entry) : Prop where
  read : ∀ link : Link, link.Answers .get → l.get link server = (.ok (some e), server)
  nothingElse : ∀ link found, (l.get link server).1 = .ok found → found = some e

theorem readsExactly_of_encode (held : server.data.get? l.key = some (Text.bytes e.encode))
    (wellFormed : e.WellFormed) : l.ReadsExactly server e where
  read := by
    intro link answers
    have sent : link.send server (.get l.key) = (some (.value (Text.bytes e.encode)), server) := by
      rw [Link.send_of_answers answers, Server.run, held]
    simp only [get, answers.reachable, if_true, sent, Text.ofBytes?_bytes,
      Entry.decode?_encode wellFormed]
  nothingElse := by
    intro link found read
    unfold get at read
    split at read
    · rcases link.send_cases (.get l.key) with sent | ⟨reason, sent⟩ | sent
      · rw [sent] at read
        cases read
      · rw [sent] at read
        cases read
      · rw [sent] at read
        simp only [Server.run, held, Text.ofBytes?_bytes, Entry.decode?_encode wellFormed] at read
        exact (Except.ok.inj read).symm
    · cases read

/-- A write is made as a whole or has no effect, however it goes, and a get has none. -/
structure IsAtomic (l : Lock) (server : Server) (w : Write) : Prop where
  reading : ∀ link, (l.get link server).2 = server
  readingLost : (server.run (.get l.key)).2 = server
  /-- What a write over a link does is one of the ways. -/
  goes : ∀ link, ∃ ending, l.Goes server w ending (l.write link server w).2 ∧
    ending.answer l = (l.write link server w).1
  /-- If nothing is lost all of the commands run. -/
  whole : server.ran (l.commands server w) = (l.write {} server w).2
  /-- A command may also run after the call has ended. -/
  whenever : ∀ command ∈ l.commands server w, ∀ later : Server,
    (later.run command).2.data = later.data ∨ l.Wrote later w (later.run command).2
  survived : ∀ ending server', l.Goes server w ending server' →
    ending.answer l ≠ .error .exhausted
  elsewhere : ∀ ending server', l.Goes server w ending server' → ∀ key, key ≠ l.key →
    server'.data.get? key = server.data.get? key
  refused : ∀ reason server', l.Goes server w (.heard (.error reason)) server' →
    server'.data = server.data
  accepted : ∀ e server', l.Goes server w (.heard (.ok e)) server' →
    e = w.entry ∧ l.Wrote server w server'
  lost : ∀ loss server', l.Goes server w (.lost loss) server' →
    server'.data = server.data ∨ l.Wrote server w server'
  readBack : ∀ server', l.Wrote server w server' → ∀ later, server'.Spared l.key later →
    ∀ reader : Lock, reader.key = l.key → reader.ReadsExactly later w.entry

/-- Whatever a server holds, calls on it are atomic, and what has been written is read back. -/
theorem isAtomic (l : Lock) (server : Server) {w : Write} (proper : w.IsProper) :
    l.IsAtomic server w where
  reading link := (l.get_cases link server).1
  readingLost := by
    unfold Server.run
    dsimp only
    split <;> rfl
  goes link := l.exists_goes link server w
  whole := l.ran_commands server proper
  whenever command member later := run_cases_of_mem member later
  survived := by
    rintro _ _ (⟨link, -⟩ | ⟨loss, -⟩)
    · exact l.write_ne_exhausted link server proper
    · cases loss <;> nofun
  elsewhere _ _ goes _ other := get?_elsewhere (goes_cases goes) other
  refused := by
    intro reason server' goes
    obtain ⟨link, written⟩ := write_of_heard goes
    have same := data_of_error (congrArg Prod.fst written)
    rw [written] at same
    exact same
  accepted := by
    intro e server' goes
    obtain ⟨link, written⟩ := write_of_heard goes
    have made := wrote_of_ok (congrArg Prod.fst written)
    rw [written] at made
    exact made
  lost _ _ goes := goes_cases goes
  readBack := by
    intro server' wrote later spared reader same
    refine readsExactly_of_encode ?_ (Write.wellFormed_entry proper)
    rw [same, spared.get?_eq, wrote.stored, Table.get?_put_self]

/-- Two locks of one key. -/
def outer : Lock := ⟨"test", "x:y", "a", .ofSeconds 5⟩

def inner : Lock := ⟨"test:x", "y", "b", .ofSeconds 5⟩

/-- No lease, but the script finds a version in it. -/
def strayText : String := "\x7b\"version\":\" 0x7 \"\x7d"

/-- Bytes that are no text under one key, and a text that is no lease under the key of the locks. -/
def stray : Server :=
  { data := (Table.empty.put "other" [255, 0]).put outer.key (Text.bytes strayText) }

def quotedLease : Lease :=
  ⟨"a \"b\"\n\\ ☃", ⟨1⟩, .ofUnix (-1) 5, .ofUnix 253402300800 0, 4294967295⟩

theorem stray_compare : stray.compare (Text.bytes strayText) 7 = .ok true := by
  have json : Script.isJson (Text.bytes strayText) = true := by decide +kernel
  have evaluated : (Script.compare (Text.bytes strayText) 7).toOption = some true := by
    decide +kernel
  rw [Server.compare, if_pos json]
  generalize Script.compare (Text.bytes strayText) 7 = outcome at evaluated
  cases outcome with
  | error reason => cases evaluated
  | ok same => exact congrArg Except.ok (Option.some.inj evaluated)

/-- The stray text is replaced. -/
def replaced : Server := (outer.write {} stray (.update 7 quotedLease)).2

/-- Another key is removed. -/
def thinned : Server := { replaced with data := replaced.data.erase "other" }

/-- The stray text is replaced as if it were version 7. The lease is read back although another key
is removed, and a lock tries to create the lease again. If the call is cut off, the lease may have
been stored: after two of three commands it has not, and after all three it has. -/
theorem isAtomic_stray :
    (Write.update 7 quotedLease).IsProper ∧ (inner.get {} stray).1.toOption = none ∧
      outer.Goes stray (.update 7 quotedLease) (.heard (.ok ⟨8, quotedLease⟩)) replaced ∧
      inner.Goes thinned (.create quotedLease) (.heard (.error (.alreadyExists "test:x/y")))
        thinned ∧
      inner.ReadsExactly thinned ⟨8, quotedLease⟩ ∧
      (stray.ran ((outer.commands stray (.update 7 quotedLease)).take 2)).data = stray.data ∧
      outer.Goes stray (.update 7 quotedLease) (.lost .late)
        (stray.ran ((outer.commands stray (.update 7 quotedLease)).take 3)) ∧
      inner.ReadsExactly (stray.ran ((outer.commands stray (.update 7 quotedLease)).take 3))
        ⟨8, quotedLease⟩ := by
  have proper : (Write.update 7 quotedLease).IsProper := ⟨by decide, by decide +kernel⟩
  have unread : (inner.get {} stray).1.toOption = none := by decide +kernel
  have sameKey : inner.key = outer.key := by decide
  have held : stray.data.get? outer.key = some (Text.bytes strayText) := Table.get?_put_self _ _ _
  have answered : (outer.write {} stray (.update 7 quotedLease)).1 = .ok ⟨8, quotedLease⟩ := by
    have room : 7 < Entry.versionLimit - 1 := by decide
    have updated := update_eq held room quotedLease
    rw [stray_compare] at updated
    exact congrArg Prod.fst updated
  have heard : outer.Goes stray (.update 7 quotedLease) (.heard (.ok ⟨8, quotedLease⟩))
      replaced := by
    rw [← answered]
    exact .heard {} (by simp [answered])
  have atomic := isAtomic outer stray proper
  have wrote := (atomic.accepted _ _ heard).2
  have three : stray.ran ((outer.commands stray (.update 7 quotedLease)).take 3) = replaced :=
    atomic.whole
  have removed : replaced.Spared outer.key thinned := .removal .start (by decide)
  have refused : inner.write {} thinned (.create quotedLease) =
      (.error (.alreadyExists "test:x/y"), thinned) := by
    have kept := removed.get?_eq
    rw [wrote.stored, Table.get?_put_self, ← sameKey] at kept
    simp only [write, create, if_true, send_run, Server.run, Table.contains, kept,
      Option.isSome_some]
    rfl
  have again : inner.Goes thinned (.create quotedLease)
      (.heard (.error (.alreadyExists "test:x/y"))) thinned := by
    have way : inner.Goes thinned (.create quotedLease)
        (.heard (inner.write {} thinned (.create quotedLease)).1)
        (inner.write {} thinned (.create quotedLease)).2 := .heard {} (by simp [refused])
    rw [refused] at way
    exact way
  refine ⟨proper, unread, heard, again, ?_, rfl, .lost .late 3, ?_⟩
  · exact atomic.readBack _ wrote _ (removed.write again fun _ => rfl) inner sameKey
  · rw [three]
    exact atomic.readBack _ wrote _ .start inner sameKey

/-- A lease has been created although its caller is told that the time was up. A lease that its
caller knows to be created is not read by a lock that waits in vain for an answer. -/
theorem unheard_create :
    (Write.create (Exchange.first "a").lease).IsProper ∧
      (Exchange.contender "a").Goes {} (.create (Exchange.first "a").lease) (.lost .late)
        (Exchange.created "a") ∧
      (Ending.lost .late).answer (Exchange.contender "a") = .error (.timedOut (.ofSeconds 5)) ∧
      ({} : Server).data.get? (Exchange.contender "a").key = none ∧
      (Exchange.created "a").data.get? (Exchange.contender "a").key =
        some (Text.bytes (Exchange.first "a").encode) ∧
      (Exchange.contender "a").create {} {} (Exchange.first "a").lease =
        (.ok (Exchange.first "a"), Exchange.created "a") ∧
      ((Exchange.contender "b").get { silent := [.get] } (Exchange.created "a")).1 =
        .error (.timedOut (.ofSeconds 5)) := by
  have proper : (Write.create (Exchange.first "a").lease).IsProper :=
    (Exchange.first_wellFormed "a").2
  refine ⟨proper, .lost .late 1, rfl, rfl, Table.get?_put_self _ _ _, create_eq rfl _, rfl⟩

end Lock

end Redis

end LeaderLease
