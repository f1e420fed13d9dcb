import LeaderLease.Proofs.Codec
import LeaderLease.Redis.Lock

/-!
# What calls do to a server

Over a link a command does not arrive, is refused or is run. A write that is accepted stores what it
answers: a new lease under a key that held nothing, or the lease of the next version where the script
found the expected one. Any other call over a link leaves the data alone (`perform_cases`). On a
server that answers every command a write comes down to one step on what is under its key
(`create_eq`, `update_eq`).
-/

set_option autoImplicit false

namespace LeaderLease

namespace Redis

/-- The entry that is read from what a server stores under a key. -/
def Server.current? (server : Server) (key : String) : Option Entry := do
  let stored ← server.data.get? key
  Entry.decode? (← Text.ofBytes? stored)

theorem Server.current?_of_encode {server : Server} {key : String} {e : Entry}
    (held : server.data.get? key = some (Text.bytes e.encode)) (wellFormed : e.WellFormed) :
    server.current? key = some e := by
  simp only [current?, held, Option.bind_eq_bind, Option.bind_some, Text.ofBytes?_bytes,
    Entry.decode?_encode wellFormed]

/-- The script found the expected version under a key, and the new value is stored there. -/
def Server.Swaps (server server' : Server) (key : String) (version : Nat) (value : List UInt8) :
    Prop :=
  (∃ current, server.data.get? key = some current ∧ server.compare current version = .ok true) ∧
    server'.data = server.data.put key value

/-- An entry may be stored under a key: as the first one, or behind the version that the script finds
there. -/
def Server.Takes (server : Server) (key : String) (e : Entry) : Prop :=
  (server.data.get? key = none ∧ e.version = 1) ∨
    ∃ current version, server.data.get? key = some current ∧
      server.compare current version = .ok true ∧ e.version = version + 1

/-- The server once it knows the script. -/
def Server.primed (server : Server) : Server := { server with loaded := true }

/-- The script can be loaded. -/
def Link.Loads (link : Link) : Prop :=
  ∀ server, link.send server .loadScript = (some .ok, server.primed)

/-- No command changes how the server reads values. -/
theorem Server.run_foreign (server : Server) (command : Command) :
    (server.run command).2.foreign = server.foreign := by
  cases command with
  | get key => unfold run; dsimp only; split <;> rfl
  | setIfAbsent key value => unfold run; dsimp only; split <;> rfl
  | loadScript => rfl
  | runScript key version value =>
      unfold run swap
      dsimp only
      split
      · split
        · rfl
        · split <;> rfl
      · rfl

theorem Server.compare_congr {s t : Server} (same : s.foreign = t.foreign) :
    s.compare = t.compare := by
  funext stored expected
  rw [compare, compare, same]

/-- The entry that is stored is read as JSON. -/
theorem Server.compare_of_decode (server : Server) {stored : List UInt8} {text : String} {e : Entry}
    (encoded : Text.ofBytes? stored = some text) (found : Entry.decode? text = some e)
    (expected : Nat) : server.compare stored expected = Script.compare stored expected := by
  obtain ⟨document, read, -⟩ := Option.bind_eq_some_iff.mp found
  refine if_pos ?_
  rw [Script.isJson, encoded, Option.bind_some, read, Option.isSome_some]

theorem Server.compare_of_encode (server : Server) {e : Entry} (wellFormed : e.WellFormed)
    (expected : Nat) :
    server.compare (Text.bytes e.encode) expected = Script.compare (Text.bytes e.encode) expected :=
  server.compare_of_decode (Text.ofBytes?_bytes _) (Entry.decode?_encode wellFormed) expected

/-- The script answers that it swapped only if it did, and else it has no effect. -/
theorem Server.swap_cases (server : Server) (key : String) (version : Nat) (value : List UInt8) :
    (server.Swaps (server.swap key version value).2 key version value ∧
      (server.swap key version value).1 = .integer 1) ∨
    ((server.swap key version value).2 = server ∧ (server.swap key version value).1 ≠ .integer 1) := by
  unfold swap
  split
  · exact .inr ⟨rfl, nofun⟩
  · rename_i current held
    split
    · exact .inr ⟨rfl, nofun⟩
    · exact .inr ⟨rfl, nofun⟩
    · rename_i found
      exact .inl ⟨⟨⟨current, held, found⟩, rfl⟩, rfl⟩

namespace Link

variable {link : Link}

/-- A command does not arrive, or is refused without effect, or is run, whatever the server holds. -/
theorem send_cases (link : Link) (command : Command) :
    (∀ server, link.send server command = (none, server)) ∨
    (∃ reason, ∀ server, link.send server command = (some (.error reason), server)) ∨
    ∀ server, link.send server command =
      (some (server.run command).1, (server.run command).2) := by
  by_cases silent : link.silent.contains command.commandName = true
  · exact .inl fun server => if_pos silent
  · cases refused : link.refused.lookup command.commandName with
    | none => exact .inr (.inr fun server => by simp only [send, if_neg silent, refused])
    | some reason =>
        exact .inr (.inl ⟨reason, fun server => by simp only [send, if_neg silent, refused]⟩)

theorem send_foreign (link : Link) (server : Server) (command : Command) :
    (link.send server command).2.foreign = server.foreign := by
  rcases link.send_cases command with sent | ⟨reason, sent⟩ | sent
  · rw [sent]
  · rw [sent]
  · rw [sent]
    exact server.run_foreign command

theorem send_runScript_cases (server : Server) (key : String) (version : Nat) (value : List UInt8) :
    (server.Swaps (link.send server (.runScript key version value)).2 key version value ∧
      (link.send server (.runScript key version value)).1 = some (.integer 1)) ∨
    ((link.send server (.runScript key version value)).2.data = server.data ∧
      (link.send server (.runScript key version value)).1 ≠ some (.integer 1)) := by
  rcases link.send_cases (.runScript key version value) with sent | ⟨reason, sent⟩ | sent
  · rw [sent]
    exact .inr ⟨rfl, nofun⟩
  · rw [sent]
    exact .inr ⟨rfl, nofun⟩
  · rw [sent, Server.run]
    split
    · rcases server.swap_cases key version value with ⟨swaps, answered⟩ | ⟨same, answered⟩
      · exact .inl ⟨swaps, congrArg some answered⟩
      · exact .inr ⟨congrArg Server.data same, fun one => answered (Option.some.inj one)⟩
    · exact .inr ⟨rfl, nofun⟩

/-- Loading the script changes no data. -/
theorem send_loadScript_cases (server : Server) :
    (link.send server .loadScript).2.data = server.data ∧
      (link.send server .loadScript).1 ≠ some (.integer 1) := by
  rcases link.send_cases .loadScript with sent | ⟨reason, sent⟩ | sent <;> rw [sent] <;>
    exact ⟨rfl, nofun⟩

end Link

namespace Lock

/-- A get changes nothing, and the entry that it reads is stored. -/
theorem get_cases (l : Lock) (link : Link) (server : Server) :
    (l.get link server).2 = server ∧
      ∀ e, (l.get link server).1 = .ok (some e) → server.current? l.key = some e := by
  unfold get
  split
  · rcases link.send_cases (.get l.key) with sent | ⟨reason, sent⟩ | sent
    · rw [sent]
      exact ⟨rfl, by rintro _ ⟨⟩⟩
    · rw [sent]
      exact ⟨rfl, by rintro _ ⟨⟩⟩
    · cases held : server.data.get? l.key with
      | none =>
          rw [sent server]
          simp only [Server.run, held]
          exact ⟨trivial, by rintro _ ⟨⟩⟩
      | some stored =>
          rw [sent server]
          simp only [Server.run, held]
          split
          · exact ⟨rfl, by rintro _ ⟨⟩⟩
          · rename_i text encoded
            split
            · rename_i found
              refine ⟨rfl, fun e read => ?_⟩
              cases read
              simp only [Server.current?, held, encoded, Option.bind_eq_bind, Option.bind_some,
                found]
            · exact ⟨rfl, by rintro _ ⟨⟩⟩
  · exact ⟨rfl, by rintro _ ⟨⟩⟩

/-- A create is accepted and puts its lease under a key that held nothing, or it changes no data. -/
theorem create_cases (l : Lock) (link : Link) (server : Server) (lease : Lease) :
    ((l.create link server lease).1 = .ok ⟨1, lease⟩ ∧ server.data.get? l.key = none ∧
      (l.create link server lease).2.data =
        server.data.put l.key (Text.bytes (Entry.encode ⟨1, lease⟩))) ∨
    ((∃ reason, (l.create link server lease).1 = .error reason) ∧
      (l.create link server lease).2.data = server.data) := by
  unfold create
  dsimp only
  split
  · rcases link.send_cases (.setIfAbsent l.key (Text.bytes (Entry.encode ⟨1, lease⟩))) with
      sent | ⟨reason, sent⟩ | sent
    · rw [sent]
      exact .inr ⟨⟨_, rfl⟩, rfl⟩
    · rw [sent]
      exact .inr ⟨⟨_, rfl⟩, rfl⟩
    · cases held : server.data.get? l.key with
      | none =>
          rw [sent server]
          simp only [Server.run, Table.contains, held]
          exact .inl ⟨rfl, trivial, rfl⟩
      | some stored =>
          rw [sent server]
          simp only [Server.run, Table.contains, held]
          exact .inr ⟨⟨_, rfl⟩, rfl⟩
  · exact .inr ⟨⟨_, rfl⟩, rfl⟩

theorem runScript_cases (l : Lock) (link : Link) (server : Server) (version : Nat)
    (value : List UInt8) :
    (server.Swaps (l.runScript link server version value).2 l.key version value ∧
      (l.runScript link server version value).1 = some (.integer 1)) ∨
    ((l.runScript link server version value).2.data = server.data ∧
      (l.runScript link server version value).1 ≠ some (.integer 1)) := by
  have first := link.send_runScript_cases server l.key version value
  have reads := link.send_foreign server (.runScript l.key version value)
  unfold runScript
  generalize link.send server (.runScript l.key version value) = sent at first reads ⊢
  split
  · rename_i between
    have same : between.data = server.data := by
      rcases first with ⟨-, answered⟩ | ⟨same, -⟩
      · cases answered
      · exact same
    obtain ⟨loadedData, loadedReply⟩ := link.send_loadScript_cases between
    have rereads := link.send_foreign between .loadScript
    generalize link.send between .loadScript = loaded at loadedData loadedReply rereads ⊢
    split
    · rename_i ready
      have again := link.send_runScript_cases ready l.key version value
      have data : ready.data = server.data := loadedData.trans same
      have compare := Server.compare_congr (rereads.trans reads)
      simpa only [Server.Swaps, data, compare] using again
    · exact .inr ⟨loadedData.trans same, loadedReply⟩
  · exact first

/-- An update is accepted and replaces the version that it is for, or it changes no data. -/
theorem update_cases (l : Lock) (link : Link) (server : Server) (version : Nat) (lease : Lease) :
    ((l.update link server version lease).1 = .ok ⟨version + 1, lease⟩ ∧
      version + 1 < Entry.versionLimit ∧
      server.Swaps (l.update link server version lease).2 l.key version
        (Text.bytes (Entry.encode ⟨version + 1, lease⟩))) ∨
    ((∃ reason, (l.update link server version lease).1 = .error reason) ∧
      (l.update link server version lease).2.data = server.data) := by
  unfold update
  split
  · cases following : Entry.nextVersion? version with
    | none => exact .inr ⟨⟨_, rfl⟩, rfl⟩
    | some next =>
        obtain ⟨room, same⟩ := Option.ite_none_right_eq_some.mp following
        obtain rfl := Option.some.inj same
        have cases := l.runScript_cases link server version
          (Text.bytes (Entry.encode ⟨version + 1, lease⟩))
        dsimp only
        generalize l.runScript link server version _ = ran at cases ⊢
        obtain ⟨reply, server'⟩ := ran
        rcases cases with ⟨swaps, rfl⟩ | ⟨same, other⟩
        · exact .inl ⟨rfl, room, swaps⟩
        · refine .inr ?_
          split
          · rename_i answered
            cases answered
            exact absurd rfl other
          all_goals
            rename_i answered
            cases answered
            exact ⟨⟨_, rfl⟩, same⟩
  · exact .inr ⟨⟨_, rfl⟩, rfl⟩

/-- A call leaves the data as they are, or it writes the lease that it was given under the key. -/
theorem perform_cases (l : Lock) (link : Link) (server : Server) (call : Call) :
    (l.perform link server call).2.data = server.data ∨
    ∃ w e, call = .write w ∧ e.lease = w.lease ∧ server.Takes l.key e ∧
      (l.perform link server call).2.data = server.data.put l.key (Text.bytes e.encode) := by
  cases call with
  | get => exact .inl (congrArg Server.data (l.get_cases link server).1)
  | write w =>
      cases w with
      | create lease =>
          rcases l.create_cases link server lease with ⟨-, absent, put⟩ | ⟨-, same⟩
          · exact .inr ⟨_, ⟨1, lease⟩, rfl, rfl, .inl ⟨absent, rfl⟩, put⟩
          · exact .inl same
      | update version lease =>
          rcases l.update_cases link server version lease with
            ⟨-, -, ⟨current, held, found⟩, put⟩ | ⟨-, same⟩
          · exact .inr ⟨_, ⟨version + 1, lease⟩, rfl, rfl,
              .inr ⟨current, version, held, found, rfl⟩, put⟩
          · exact .inl same

/-! ## A server that answers every command -/

theorem send_run (server : Server) (command : Command) :
    Link.send {} server command = (some (server.run command).1, (server.run command).2) := by
  rfl

theorem swap_ne_noScript (server : Server) (key : String) (version : Nat) (value : List UInt8) :
    (server.swap key version value).1 ≠ .noScript := by
  unfold Server.swap
  split
  · nofun
  · split <;> nofun

/-- The script runs, whether the server knew it or not, where it can be loaded. -/
theorem runScript_of_loads {link : Link} {l : Lock} {version : Nat} {value : List UInt8}
    (loads : link.Loads) (runs : ∀ server, link.send server (.runScript l.key version value) =
      (some (server.run (.runScript l.key version value)).1,
        (server.run (.runScript l.key version value)).2)) (server : Server) :
    l.runScript link server version value =
      (some (server.primed.swap l.key version value).1,
        (server.primed.swap l.key version value).2) := by
  obtain ⟨data, loaded, foreign⟩ := server
  have known := swap_ne_noScript ⟨data, true, foreign⟩ l.key version value
  cases loaded with
  | false =>
      have unknown : Server.run ⟨data, false, foreign⟩ (.runScript l.key version value) =
          (.noScript, ⟨data, false, foreign⟩) := rfl
      simp only [runScript, runs, unknown, loads ⟨data, false, foreign⟩]
      rfl
  | true =>
      simp only [runScript, runs, Server.run, Server.primed, if_true]
      generalize Server.swap ⟨data, true, foreign⟩ l.key version value = swapped at known ⊢
      obtain ⟨reply, server⟩ := swapped
      cases reply with
      | noScript => exact absurd rfl known
      | _ => rfl

theorem runScript_eq (l : Lock) (server : Server) (version : Nat) (value : List UInt8) :
    l.runScript {} server version value =
      (some (server.primed.swap l.key version value).1,
        (server.primed.swap l.key version value).2) :=
  runScript_of_loads (fun _ => rfl) (fun _ => rfl) server

/-- A server that holds one text, under the key of the lock. -/
def holding (l : Lock) (text : String) : Server :=
  { data := Table.empty.put l.key (Text.bytes text) }

variable {l : Lock} {server : Server} {e : Entry}

theorem create_eq (absent : server.data.get? l.key = none) (lease : Lease) :
    l.create {} server lease = (.ok ⟨1, lease⟩,
      { server with data := server.data.put l.key (Text.bytes (Entry.encode ⟨1, lease⟩)) }) := by
  simp [create, send_run, Server.run, Table.contains, absent]

/-- A get on a server that answers every command and holds what a lock stored. -/
theorem get_of_encode (held : server.data.get? l.key = some (Text.bytes e.encode))
    (wellFormed : e.WellFormed) : l.get {} server = (.ok (some e), server) := by
  simp [get, send_run, Server.run, held, Text.ofBytes?_bytes, Entry.decode?_encode wellFormed]

/-- An update on a server that answers every command and holds the lease. -/
theorem update_eq {stored : List UInt8} (held : server.data.get? l.key = some stored) {version : Nat}
    (room : version < Entry.versionLimit - 1) (lease : Lease) :
    l.update {} server version lease =
      match server.compare stored version with
      | .error reason => (.error (.redis reason), server.primed)
      | .ok false => (.error (.conflict l.describe), server.primed)
      | .ok true => (.ok ⟨version + 1, lease⟩, { server.primed with
          data := server.data.put l.key (Text.bytes (Entry.encode ⟨version + 1, lease⟩)) }) := by
  have next : Entry.nextVersion? version = some (version + 1) := if_pos (by omega)
  have same : server.primed.compare stored version = server.compare stored version := rfl
  have found : server.primed.data.get? l.key = some stored := held
  simp only [update, next, runScript_eq, Server.swap, found, same]
  cases compared : server.compare stored version with
  | error reason => rfl
  | ok same => cases same <;> rfl

end Lock

end Redis

end LeaderLease
